import ApiContract.Proofs.Run.Reachable
import ApiContract.Proofs.Types.Flattened
import ApiContract.Proofs.Types.Overrides
import ApiContract.Proofs.Types.Words

/-! # Payloads that are binary

Whether a payload is binary is asked of the schema that its references lead to, while its type
comes from mapping it, where an alias may be known from before. In reachable tables every known
alias has the type of the schema that its component leads to. So both answers are about one
schema, and they differ in two cases only: where an existing type stands for binary data, and
where binary data stands behind a component with an empty name, at which the search for the
schema stops.
-/
namespace ApiContract

/-- References followed from component to component: the names on the way, and the schema at
the end, which is no reference. -/
inductive Follows (contract : Contract) : Schema → List String → Schema → Prop
  | here {s : Schema} (plain : ∀ location name, s ≠ .reference location name) :
      Follows contract s [] s
  | through {location name : String} {next t : Schema} {names : List String}
      (found : contract.schema? name = some next) (rest : Follows contract next names t) :
      Follows contract (.reference location name) (name :: names) t

def Schema.isBinary : Schema → Bool
  | binary _ => true
  | _ => false

/-- What is known of the type that a schema is mapped to when it is no reference. -/
structure Schema.Gets (s : Schema) (type : TypeRef) : Prop where
  binary : type = .binary ↔ s.isBinary = true ∧ s.isExternal = false
  external : s.isExternal = true → ∃ q, s.external.text? = some q ∧ type = .external q

variable {contract : Contract} {s t : Schema} {names : List String} {type : TypeRef}

namespace Follows

theorem unique {names' : List String} {t' : Schema} (h : Follows contract s names t)
    (h' : Follows contract s names' t') : names = names' ∧ t = t' := by
  induction h generalizing names' with
  | here plain =>
    cases h' with
    | here => exact ⟨rfl, rfl⟩
    | through => exact absurd rfl (plain _ _)
  | through found _ ih =>
    cases h' with
    | here plain => exact absurd rfl (plain _ _)
    | through found' rest' =>
      cases found.symm.trans found'
      obtain ⟨rfl, rfl⟩ := ih rest'
      exact ⟨rfl, rfl⟩

/-- From each name on the way the rest of the way leads to the same end. -/
theorem of_mem (h : Follows contract s names t) {name : String} (hname : name ∈ names) :
    ∃ next rest, contract.schema? name = some next ∧ Follows contract next rest t ∧
      rest.length < names.length := by
  induction h with
  | here => cases hname
  | @through _ _ next t rest found follows ih =>
    rcases List.mem_cons.mp hname with rfl | hname
    · exact ⟨next, rest, found, follows, by simp⟩
    · obtain ⟨next', rest', found', follows', hlt⟩ := ih hname
      exact ⟨next', rest', found', follows', by rw [List.length_cons]; omega⟩

/-- A way that ends comes to no component again. -/
theorem notMem {name : String} {next : Schema} (found : contract.schema? name = some next)
    (h : Follows contract next names t) : name ∉ names := by
  intro hname
  obtain ⟨next', rest, found', follows, hlt⟩ := h.of_mem hname
  cases found.symm.trans found'
  obtain ⟨rfl, -⟩ := h.unique follows
  exact absurd hlt (lt_irrefl _)

/-- The search for the target goes all the way, or up to the first component without a name. -/
theorem targetWithin (h : Follows contract s names t) {fuel : ℕ} {seen : List String}
    (enough : contract.unseen seen < fuel) (fresh : ∀ name ∈ names, name ∉ seen) :
    (names.contains "" = false ∧ contract.targetWithin fuel seen s = .ok t) ∨
      (names.contains "" = true ∧
        ∃ location, contract.targetWithin fuel seen s = .ok (.reference location "")) := by
  induction h generalizing fuel seen with
  | @here s plain =>
    obtain ⟨fuel, rfl⟩ := Nat.exists_eq_succ_of_ne_zero (Nat.ne_zero_of_lt enough)
    refine Or.inl ⟨rfl, ?_⟩
    cases s with
    | reference location name => exact absurd rfl (plain location name)
    | _ => rfl
  | @through location name next t names found rest ih =>
    obtain ⟨fuel, rfl⟩ := Nat.exists_eq_succ_of_ne_zero (Nat.ne_zero_of_lt enough)
    by_cases hempty : name = ""
    · subst hempty
      exact Or.inr ⟨by simp, location, rfl⟩
    · have hnew : name ∉ seen := fresh name List.mem_cons_self
      have hless := Contract.unseen_cons_lt found hnew
      have hrest : ∀ other ∈ names, other ∉ name :: seen := by
        intro other hother hmem
        rcases List.mem_cons.mp hmem with rfl | hmem
        · exact rest.notMem found hother
        · exact fresh other (List.mem_cons_of_mem _ hother) hmem
      have hstep : contract.targetWithin (fuel + 1) seen (.reference location name) =
          contract.targetWithin fuel (name :: seen) next := by
        rw [Contract.targetWithin]
        simp only [String.isEmpty_iff, hempty, if_false, hnew, found]
        rfl
      have hcontains : (name :: names).contains "" = names.contains "" := by
        simp [Ne.symm hempty]
      rw [hstep, hcontains]
      exact ih (by omega) hrest

/-- A schema counts as binary when the end of its way does and all names on it are not empty. -/
theorem isBinary (h : Follows contract s names t) :
    contract.isBinary (some s) = .ok (t.isBinary && !names.contains "") := by
  have enough : contract.unseen [] < contract.schemas.length + 2 := by
    rw [Contract.unseen_nil]
    omega
  have hend := h.targetWithin enough fun _ _ => List.not_mem_nil
  rcases hend with ⟨hnames, htarget⟩ | ⟨hnames, location, htarget⟩
  · rw [hnames]
    simp only [Contract.isBinary, Contract.target, htarget]
    cases t <;> rfl
  · rw [hnames]
    simp only [Contract.isBinary, Contract.target, htarget, Bool.not_true, Bool.and_false]
    rfl

end Follows

/-- The type is that of the schema which the references lead to. -/
def Arrives (contract : Contract) (s : Schema) (type : TypeRef) : Prop :=
  ∃ names t, Follows contract s names t ∧ t.Gets type

/-- The type of a schema, or of none. -/
def Answers (contract : Contract) : Option Schema → TypeRef → Prop
  | none, type => type = .any
  | some s, type => Arrives contract s type

theorem Schema.Gets.arrives (h : s.Gets type)
    (plain : ∀ location name, s ≠ .reference location name) : Arrives contract s type :=
  ⟨[], s, .here plain, h⟩

theorem Arrives.through {location name : String} (found : contract.schema? name = some s)
    (h : Arrives contract s type) : Arrives contract (.reference location name) type := by
  obtain ⟨names, t, hfollows, hgets⟩ := h
  exact ⟨name :: names, t, .through found hfollows, hgets⟩

namespace TypeTables

/-- Every alias has the type of the schema which its component leads to. -/
def Aliased (contract : Contract) (t : TypeTables) : Prop :=
  ∀ e ∈ t.aliases, ∃ s, contract.schema? e.1 = some s ∧ Arrives contract s e.2

variable {tables : TypeTables}

theorem Blank.aliased (h : tables.Blank) : Aliased contract tables := by
  simp [Aliased, h.aliases]

theorem Aliased.rollback (h : Aliased contract tables) (mark : Mark) :
    Aliased contract (tables.rollback mark) :=
  fun e he => h e (List.mem_filter.mp he).1

theorem Aliased.learning (h : Aliased contract tables) {name : String}
    (found : contract.schema? name = some s) (arrives : Arrives contract s type) :
    Aliased contract (Types.learning tables name type) := by
  intro e he
  rcases Table.mem_put he with he | rfl
  · exact h e he
  · exact ⟨s, found, arrives⟩

end TypeTables

namespace Types

open Step TypeTables

variable {map : Mapping}

/-- However the step ends, the aliases are those of the schemas that components lead to. -/
abbrev KeepsAliased (contract : Contract) {α : Type} (step : Step α) : Prop :=
  Guards (Aliased contract) (fun _ => false) step

/-- A way to map that gives each schema the type of the one which it leads to. -/
def Arriving (contract : Contract) (map : Mapping) : Prop :=
  ∀ schema owner role,
    Yields (Aliased contract) (fun _ => false) (Answers contract schema) (map schema owner role)

theorem Arriving.keeps (hmap : Arriving contract map) (schema : Option Schema) (owner : String)
    (role : Scalar) : KeepsAliased contract (map schema owner role) :=
  (hmap schema owner role).weaken fun _ _ => trivial

/-- A type of another kind, for a schema of another form that no existing type stands for. -/
theorem arrives_other (hx : s.isExternal = false) (hs : s.isBinary = false)
    (plain : ∀ location name, s ≠ .reference location name) (htype : type.kind ≠ .binary) :
    Arrives contract s type := by
  refine Schema.Gets.arrives ⟨⟨?_, fun h => ?_⟩, fun h => ?_⟩ plain
  · rintro rfl
    exact absurd rfl htype
  · cases hs.symm.trans h.1
  · cases hx.symm.trans h

theorem arrives_binary {notes : SchemaNotes} (hx : (Schema.binary notes).isExternal = false) :
    Arrives contract (.binary notes) .binary := by
  refine Schema.Gets.arrives ⟨⟨fun _ => ⟨rfl, hx⟩, fun _ => rfl⟩, fun h => ?_⟩ nofun
  cases hx.symm.trans h

theorem arrives_externalType (hx : s.isExternal = true) :
    Yields (Aliased contract) (fun _ => false) (Arrives contract s) (externalType s.external) := by
  have plain : ∀ location name, s ≠ .reference location name := by
    rintro _ _ rfl
    cases hx
  refine Yields.lift ?_
  cases hq : s.external.text? with
  | none => exact .error rfl
  | some q =>
    refine .ok (Schema.Gets.arrives ⟨⟨fun h => ?_, fun h => ?_⟩, fun _ => ⟨q, hq, rfl⟩⟩ plain)
    · cases h
    · cases hx.symm.trans h.2

theorem keepsAliased_synthesizeName (owner : String) (role : Scalar) :
    KeepsAliased contract (synthesizeName owner role) := by
  refine .bind (.lift_any _) fun half _ => .bind .tables fun t _ => ?_
  exact .bind (.modifyTables fun _ ht => ht) fun _ _ => .pure trivial

theorem keepsAliased_buildEnum (name : String) (schema : Schema) (values : List Tree) :
    KeepsAliased contract (buildEnum name schema values) :=
  .modifyTables fun _ ht => ht

theorem keepsAliased_buildBean (hmap : Arriving contract map) (name : String) (schema : Schema) :
    KeepsAliased contract (buildBean contract map name schema) := by
  refine .bind (.lift_any _) fun merged _ => ?_
  refine .bind (.mapM fun p _ => .map (hmap.keeps _ name p.1)) fun fields _ => ?_
  exact .bind (.modifyTables fun _ ht => ht) fun _ _ => .record _

theorem arrives_resolveAlias (hmap : Arriving contract map) {name : String}
    (found : contract.schema? name = some s) (javaName location : String) :
    Yields (Aliased contract) (fun _ => false) (Arrives contract s)
      (resolveAlias map name javaName location s) := by
  refine .bind .tables fun t ht => ?_
  split
  · next known =>
    obtain ⟨s', found', arrives⟩ := ht _ (Table.mem_of_get? known)
    cases found.symm.trans found'
    exact .pure arrives
  · split
    · exact .fail rfl
    · refine .bind (.modifyTables fun _ ht => ht) fun _ _ => ?_
      refine .bind (.afterwards (hmap (some s) javaName _) fun _ ht => ht) fun type arrives => ?_
      exact .bind (.modifyTables fun _ ht => ht.learning found arrives) fun _ _ =>
        .pure arrives

theorem arrives_referenceWith (hmap : Arriving contract map) (name location place : String) :
    Yields (Aliased contract) (fun _ => false) (Arrives contract (.reference place name))
      (referenceWith contract map name location) := by
  refine .bind .tables fun t _ => ?_
  split
  · exact .fail rfl
  · refine .bind (.lift (.need fun _ => rfl)) fun s found => ?_
    refine .bind (.lift_any _) fun javaName _ => Yields.weaken (P := Arrives contract s) ?_
      fun type arrives => arrives.through found
    split
    · next hx => exact arrives_externalType hx
    · next hx =>
      have hown : s.isExternal = false := Bool.not_eq_true _ ▸ hx
      split
      · exact .pure (arrives_other hown rfl nofun nofun)
      · exact .pure (arrives_other hown rfl nofun nofun)
      · exact arrives_resolveAlias hmap found javaName location

theorem arriving_mapNode (hmap : Arriving contract map) :
    Arriving contract (mapNode contract map) := by
  intro schema owner role
  cases schema with
  | none => exact .pure rfl
  | some s =>
    unfold mapNode
    dsimp only
    split
    · next hx => exact arrives_externalType hx
    · next hx =>
      have hown : s.isExternal = false := Bool.not_eq_true _ ▸ hx
      cases s with
      | reference location target => exact arrives_referenceWith hmap target _ _
      | unsupported => exact .fail rfl
      | primitive =>
        exact .bind (.lift_any _) fun _ _ => .pure (arrives_other hown rfl nofun nofun)
      | binary => exact .pure (arrives_binary hown)
      | any => exact .pure (arrives_other hown rfl nofun nofun)
      | array n items =>
        exact .bind (hmap (some items) owner _) fun _ _ =>
          .pure (arrives_other hown rfl nofun nofun)
      | map n value =>
        exact .bind (hmap (some value) owner _) fun _ _ =>
          .pure (arrives_other hown rfl nofun nofun)
      | enumeration =>
        refine .bind (keepsAliased_synthesizeName owner role) fun name _ => ?_
        exact .bind (keepsAliased_buildEnum name _ _) fun _ _ =>
          .pure (arrives_other hown rfl nofun nofun)
      | object =>
        dsimp only
        split
        · exact .pure (arrives_other hown rfl nofun nofun)
        · refine .bind (keepsAliased_synthesizeName owner role) fun name _ => ?_
          exact .bind (keepsAliased_buildBean hmap name _) fun _ _ =>
            .pure (arrives_other hown rfl nofun nofun)

theorem arriving_mapWithin (depth : ℕ) : Arriving contract (mapWithin contract depth) := by
  induction depth with
  | zero => exact fun _ _ _ => .fail rfl
  | succ depth ih => exact arriving_mapNode ih

theorem arriving_mapSchema : Arriving contract (mapSchema contract) :=
  fun schema owner role => arriving_mapWithin _ schema owner role

theorem keepsAliased_reference (name location : String) :
    KeepsAliased contract (reference contract name location) :=
  (arrives_referenceWith (arriving_mapWithin _) name location location).weaken fun _ _ => trivial

theorem keepsAliased_mapComponent (name : String) (schema : Schema) :
    KeepsAliased contract (mapComponent contract name schema) := by
  refine .bind .tables fun t _ => ?_
  refine .bind (.lift_any _) fun javaName _ => ?_
  split
  · exact .pure trivial
  · split
    · exact keepsAliased_buildBean (arriving_mapWithin _) javaName _
    · exact keepsAliased_buildEnum javaName _ _
    · exact .map (keepsAliased_reference name _)

theorem keepsAliased_mapComponents (components : List (String × Schema)) :
    KeepsAliased contract (mapComponents contract components) := by
  induction components with
  | nil => exact .pure trivial
  | cons c rest ih =>
    unfold mapComponents
    refine .bind .tables fun t _ => ?_
    split
    · exact ih
    · refine .bind (.attempt (keepsAliased_mapComponent c.1 c.2)) fun result _ => ?_
      split
      · exact ih
      · exact .map (.bind (.modifyTables fun u hu => hu.rollback t.mark) fun _ _ => .record _)

theorem keepsAliased_buildTables : KeepsAliased contract (buildTables contract) := by
  have hpasses : ∀ passes, KeepsAliased contract (buildPasses contract passes) := by
    intro passes
    induction passes with
    | zero => exact .fail rfl
    | succ passes ih =>
      refine .bind (.modifyTables fun t _ => (blank_startPass contract t).aliased) fun _ _ => ?_
      refine .bind (keepsAliased_mapComponents _) fun complete _ => ?_
      split
      · exact .pure trivial
      · exact ih
  refine .bind (hpasses _) fun _ _ => .bind .tables fun t _ => ?_
  exact .bind (.record _) fun _ _ => .pure trivial

theorem keepsAliased_resolve (settings : Settings) (op : Operation) (method : String) :
    KeepsAliased contract (Signature.resolve contract settings op method) := by
  have hbuild : KeepsAliased contract (Signature.build contract settings op method) :=
    Signature.build_of Yields.compositional arriving_mapSchema.keeps op method
  refine .bind .tables fun t _ => .bind (.attempt hbuild) fun result _ => ?_
  split
  · exact .pure trivial
  · exact .bind (.modifyTables fun u hu => hu.rollback t.mark) fun _ _ => .fail rfl

theorem Call.aliased {t t' : TypeTables} (h : Call contract t t') (ht : Aliased contract t) :
    Aliased contract t' := by
  cases h with
  | mapSchema schema owner role w => exact (arriving_mapSchema.keeps schema owner role w ht).2
  | reference name location w => exact (keepsAliased_reference name location w ht).2
  | synthesizeName owner role w => exact (keepsAliased_synthesizeName owner role w ht).2
  | resolve settings op method w => exact (keepsAliased_resolve settings op method w ht).2

theorem Reachable.aliased {marks : List Mark} {t : TypeTables}
    (h : Reachable contract marks t) : Aliased contract t := by
  induction h with
  | fresh => exact Blank.aliased (blank_reset {} contract)
  | call _ called ih => exact called.aliased ih
  | build _ ih => exact (keepsAliased_buildTables _ ih).2
  | mark _ ih => exact ih
  | rollback _ ih => exact ih.rollback _
  | forget _ ih => exact ih

/-- In reachable tables a schema that can be mapped counts as binary exactly when its type is
binary, with two exceptions that cancel each other out: its references lead to binary data that
an existing type stands for, or to binary data behind a component with an empty name. In any
case the type is that of the schema which the references lead to. -/
theorem isBinary_of_mapSchema {marks : List Mark} {w w' : Workspace}
    (reachable : Reachable contract marks w.tables) {schema : Option Schema} {owner : String}
    {role : Scalar} (mapped : mapSchema contract schema owner role w = .ok type w') :
    ∃ b, contract.isBinary schema = .ok b ∧
      ((b = true ↔ type = .binary) ↔
        ∀ s names t, schema = some s → Follows contract s names t → t.isBinary = true →
          (t.isExternal = true ↔ "" ∈ names)) ∧
      Answers contract schema type := by
  have hmaps := (arriving_mapSchema schema owner role w reachable.aliased).1
  rw [mapped] at hmaps
  have hanswers : Answers contract schema type := hmaps
  cases schema with
  | none =>
    cases hanswers
    exact ⟨false, rfl, by simp [TypeRef.any, TypeRef.binary, TypeRef.simple], rfl⟩
  | some s =>
    obtain ⟨names, t, hfollows, hgets⟩ := hanswers
    refine ⟨_, hfollows.isBinary, ?_, names, t, hfollows, hgets⟩
    have hall : (∀ s' names' t', some s = some s' → Follows contract s' names' t' →
        t'.isBinary = true → (t'.isExternal = true ↔ "" ∈ names')) ↔
        (t.isBinary = true → (t.isExternal = true ↔ "" ∈ names)) := by
      constructor
      · exact fun h => h s names t rfl hfollows
      · rintro h s' names' t' ⟨⟩ hfollows'
        obtain ⟨rfl, rfl⟩ := hfollows.unique hfollows'
        exact h
    rw [hall, hgets.binary]
    simp only [Bool.and_eq_true, Bool.not_eq_true', List.contains_eq_mem, decide_eq_false_iff_not]
    cases t.isExternal <;> simp

/-- An upload is a file, which is binary data. -/
def uploadContract : Contract :=
  { title := "Uploads", version := "1",
    schemas := [
      ("File", .binary { location := "#/components/schemas/File" }),
      ("Upload", .reference "#/components/schemas/Upload" "File")] }

def uploadTables : TypeTables :=
  (Step.outcome (buildTables uploadContract (.fresh uploadContract))).2

theorem isBinary_of_mapSchema_upload :
    ∃ type w', Reachable uploadContract [] uploadTables ∧
      mapSchema uploadContract (some (.reference "#/upload" "Upload")) "store" (.text "Body")
        { tables := uploadTables } = .ok type w' ∧
      type = .binary ∧
      uploadContract.isBinary (some (.reference "#/upload" "Upload")) = .ok true := by
  have reachable : Reachable uploadContract [] uploadTables :=
    .build (w := .fresh uploadContract) .fresh
  obtain ⟨type, w', mapped, hkind⟩ := Step.exists_of_outcome (f := TypeRef.kind)
    (r := mapSchema uploadContract (some (.reference "#/upload" "Upload")) "store" (.text "Body")
      { tables := uploadTables }) (b := .binary) (by decide +kernel)
  have hfollows : Follows uploadContract (.reference "#/upload" "Upload") ["Upload", "File"]
      (.binary { location := "#/components/schemas/File" }) :=
    .through rfl (.through rfl (.here nofun))
  obtain ⟨b, hb, hagree, names, t, hfollows', hgets⟩ :=
    isBinary_of_mapSchema (w := { tables := uploadTables }) reachable mapped
  obtain ⟨rfl, rfl⟩ := hfollows.unique hfollows'
  have htype : type = .binary := hgets.binary.mpr ⟨rfl, rfl⟩
  have hplain := hagree.mpr fun s names t hs hway _ => by
    cases hs
    obtain ⟨rfl, rfl⟩ := hfollows.unique hway
    simp [Schema.isExternal, Schema.external, Schema.notes, Tree.isTruthy, Scalar.isTruthy]
  cases hplain.mpr htype
  exact ⟨type, w', reachable, mapped, htype, hb⟩

/-- Blobs are of an existing type, and a component with an empty name is binary data. -/
def blobsDocument : Tree :=
  let binary : List (Scalar × Tree) :=
    [(.text "type", .text "string"), (.text "format", .text "binary")]
  .map [
    (.text "openapi", .text "3.0.0"),
    (.text "paths", .map []),
    (.text "components", .map [(.text "schemas", .map [
      (.text "Blob", .map (binary ++ [(.text "x-codegen-type", .text "com.acme.Blob")])),
      (.text "", .map binary)])])]

/-- The forms of the types that schemas are mapped to from the tables, those that can be. -/
def mappedKinds (contract : Contract) (t : TypeTables) (schemas : List Schema) :
    List (Option TypeKind) :=
  schemas.map fun s =>
    (Step.outcome
      (mapSchema contract (some s) "files" (.text "Body") { tables := t })).1.toOption.map
      TypeRef.kind

/-- A blob counts as binary, by itself and through a reference, though it is mapped to the
existing type. A reference to the data without a name does not, though it is mapped to binary. -/
theorem isBinary_disagrees :
    ∃ contract ds w blob, Contract.ofTree blobsDocument = .ok contract ∧
      buildTables contract (.fresh contract) = .ok ds w ∧
      contract.schema? "Blob" = some blob ∧
      [blob, .reference "#/blob" "Blob", .reference "#/data" ""].map
        (fun s => (contract.isBinary (some s)).toOption) = [some true, some true, some false] ∧
      mappedKinds contract w.tables [blob, .reference "#/blob" "Blob", .reference "#/data" ""] =
        [some .external, some .external, some .binary] := by
  obtain ⟨contract, blob, parsed, hfound, -, hvalues⟩ :=
    Merged.exists_component blobsDocument "Blob"
    (f := fun contract blob =>
      ([blob, .reference "#/blob" "Blob", .reference "#/data" ""].map
          fun s => (contract.isBinary (some s)).toOption,
        mappedKinds contract (Step.outcome (buildTables contract (.fresh contract))).2
          [blob, .reference "#/blob" "Blob", .reference "#/data" ""],
        (Step.outcome (buildTables contract (.fresh contract))).1.toOption.map List.length))
    (b := ([some true, some true, some false], [some .external, some .external, some .binary],
      some 0))
    (by decide +kernel)
  simp only [Prod.mk.injEq] at hvalues
  obtain ⟨hbinary, hkinds, hbuilt⟩ := hvalues
  obtain ⟨ds, w, built, -⟩ := Step.exists_of_outcome hbuilt
  rw [built] at hkinds
  exact ⟨contract, ds, w, blob, parsed, built, hfound, hbinary, hkinds⟩

end Types

end ApiContract
