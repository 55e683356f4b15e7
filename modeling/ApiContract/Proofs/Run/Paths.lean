import ApiContract.CommandLine.Run
import ApiContract.Proofs.Endpoint.Names
import ApiContract.Proofs.Run.References
import ApiContract.Proofs.Source.Paths
import ApiContract.Proofs.Types.WellNamed
import ApiContract.Proofs.Types.Words

/-! # One file for each artifact

Resources have names of their own, and so have beans and enums, but the two kinds are named
apart from each other. They are kept apart by their packages. Where the two packages are
one, the paths of the artifacts are distinct just when no bean and no enum has the name of a
resource.
-/
namespace ApiContract

open TypeTables

variable {contract : Contract} {settings : Settings}

theorem nodup_map_congr {α β γ : Type} {items : List α} {f : α → β} {g : α → γ}
    (h : ∀ a ∈ items, ∀ b ∈ items, f a = f b ↔ g a = g b) :
    (items.map f).Nodup ↔ (items.map g).Nodup := by
  rw [List.Nodup, List.Nodup, List.pairwise_map, List.pairwise_map]
  exact List.Pairwise.iff_of_mem fun ha hb => not_congr (h _ ha _ hb)

/-- No bean and no enum has the name of a resource. -/
def Generated.NamesApart (g : Generated) : Prop :=
  ∀ a ∈ g.all, ∀ b ∈ g.all, a.kind = .resource → b.kind ≠ .resource → a.name ≠ b.name

/-- Written below a directory, every artifact has a path of its own. Where the directory is
one of a tree, the tree then holds each body in its own file and is else as before. -/
structure Generated.WritesEach (g : Generated) (out : String) : Prop where
  paths : ((g.all.map (CommandLine.fileOf out)).map Prod.fst).Nodup
  files : ∀ place before after, CommandLine.FileTree.placeOf out = some place →
    before.writeAll (g.all.map (CommandLine.fileOf out)) = .ok after →
    CommandLine.FileTree.Holds before after place (g.all.map fun a => (a.segments, a.body))

/-- The dialect, the package and the name of an artifact. -/
def Artifact.place (a : Artifact) : String × String × String := (a.dialect, a.package, a.name)

/-- An artifact with nothing printed. -/
def Artifact.blank (kind : ArtifactKind) (package : String) (d : Dialect) (name : String) :
    Artifact :=
  { name, kind, package, body := "", dialect := d.name }

def Artifact.bare (a : Artifact) : Artifact := { a with body := "" }

theorem Artifact.bare_ofResource {signatures : Table String Signature} {d : Dialect}
    {resource : Resource} {a : Artifact} (h : ofResource signatures d settings resource = .ok a) :
    a.bare = blank .resource settings.javaPackage d resource.name := by
  obtain ⟨unit, -, h⟩ := Outcome.bind_eq_ok.mp h
  cases h
  rfl

theorem Artifact.bare_ofBean {d : Dialect} {bean : Bean} {a : Artifact}
    (h : ofBean d settings bean = .ok a) :
    a.bare = blank .bean settings.beanPackage d bean.name := by
  obtain ⟨unit, -, h⟩ := Outcome.bind_eq_ok.mp h
  cases h
  rfl

theorem Artifact.bare_ofEnum {d : Dialect} {enum : EnumType} {a : Artifact}
    (h : ofEnum d settings enum = .ok a) :
    a.bare = blank .enum settings.beanPackage d enum.name := by
  obtain ⟨unit, -, h⟩ := Outcome.bind_eq_ok.mp h
  cases h
  rfl

/-- The files of placed artifacts have plain paths that do not lead up. -/
theorem Artifact.plain_files {artifacts : List Artifact} (h : ∀ a ∈ artifacts, a.IsPlaced) :
    ∀ f ∈ artifacts.map fun a => (a.segments, a.body),
      (∀ n ∈ f.1, CommandLine.FilePath.IsPlain n) ∧ ".." ∉ f.1 ∧ f.1 ≠ [] := by
  intro f hf
  obtain ⟨a, ha, rfl⟩ := List.mem_map.mp hf
  have hsegments := (h a ha).segments
  exact ⟨fun n hn => (hsegments n hn).1, fun hup => (hsegments ".." hup).2 rfl,
    by simp [Artifact.segments]⟩

theorem Artifact.map_fileOf (out : String) (artifacts : List Artifact) :
    artifacts.map (CommandLine.fileOf out) =
      (artifacts.map fun a => (a.segments, a.body)).map fun f =>
        (CommandLine.FilePath.below out f.1, f.2) := by
  rw [List.map_map]
  rfl

namespace Generation

theorem Rendered.bare {signatures : Table String Signature} {resources : List Resource}
    {t : TypeTables} {d : Dialect} {artifacts : List Artifact} (ht : WellNamed contract t)
    (h : Rendered signatures settings (modelOf resources t) d artifacts) :
    artifacts.map Artifact.bare =
      (resources.map Resource.name).map (Artifact.blank .resource settings.javaPackage d) ++
        (Table.keys t.beans).map (Artifact.blank .bean settings.beanPackage d) ++
        (Table.keys t.enums).map (Artifact.blank .enum settings.beanPackage d) := by
  obtain ⟨rs, bs, es, hrs, hbs, hes, rfl⟩ := h
  have hbeans : (modelOf resources t).beans.map Bean.name = Table.keys t.beans :=
    Table.map_values ht.beanNames
  have henums : (modelOf resources t).enums.map EnumType.name = Table.keys t.enums :=
    Table.map_values ht.enumNames
  rw [List.map_append, List.map_append,
    Outcome.map_of_mapM (fun _ _ => Artifact.bare_ofResource) hrs,
    Outcome.map_of_mapM (fun _ _ => Artifact.bare_ofBean) hbs,
    Outcome.map_of_mapM (fun _ _ => Artifact.bare_ofEnum) hes, ← hbeans, ← henums,
    List.map_map, List.map_map, List.map_map]
  rfl

theorem worded_of_stages {g : Generated} {w : Workspace} {ds : List Diagnostic}
    {built signed : Workspace} {final : Grouping.Grouped}
    (h : Stages contract settings (.fresh contract) g w ds built final signed) :
    w.tables.Worded := by
  have hupheld := upheld_worded contract
  have hwords := (hupheld.buildTables (.fresh contract) (worded_reset {} contract)).2
  rw [h.building] at hwords
  exact h.keeps (fun op method u hu => (hupheld.resolve op method u hu).2) hwords

theorem named_of_stages (distinct : (Table.keys contract.schemas).Nodup) {g : Generated}
    {w : Workspace} {ds : List Diagnostic} {built signed : Workspace} {final : Grouping.Grouped}
    (h : Stages contract settings (.fresh contract) g w ds built final signed) :
    WellNamed contract w.tables ∧ w.tables.Worded := by
  have hwell := Types.wellNamed_buildTables distinct (w := .fresh contract)
    (wellNamed_reset {} contract)
  rw [h.building] at hwell
  refine ⟨h.keeps (fun op method u hu => ?_) hwell, worded_of_stages h⟩
  exact hu.grows (Signature.keeps_resolve op method u)

/-- The dialects of a run have one row of artifacts each. -/
theorem nodup_keys_artifacts {g : Generated} {w w' : Workspace}
    (h : fromContract contract settings w = .ok g w') : (Table.keys g.artifacts).Nodup := by
  obtain ⟨ds, built, -, h⟩ := Step.bind_eq_ok.mp h
  obtain ⟨final, u, -, h⟩ := Step.bind_eq_ok.mp h
  obtain ⟨t, u', -, h⟩ := Step.bind_eq_ok.mp h
  obtain ⟨artifacts, v, hartifacts, h⟩ := Step.bind_eq_ok.mp h
  obtain ⟨⟨⟩, v', -, h⟩ := Step.bind_eq_ok.mp h
  cases h
  have hnone : (Table.keys ([] : Table String (List Artifact))).Nodup := List.nodup_nil
  refine Step.foldlM_keeps (P := fun artifacts _ => (Table.keys artifacts).Nodup) ?_ hnone
    hartifacts
  intro artifacts u hu d _ artifacts' u' hadd
  obtain ⟨-, -, rendered, -, rfl⟩ := addDialect_eq_ok hadd
  exact Table.nodup_keys_put hu d.name rendered

/-- What was printed for each dialect: the resources under names of their own, and beans and
enums under names of their own. -/
structure Printed (settings : Settings) (g : Generated) (resources beans enums : List String) :
    Prop where
  dialects : (Table.keys g.artifacts).Nodup
  some : g.artifacts ≠ []
  rows : ∀ entry ∈ g.artifacts, ∃ d ∈ Dialect.known, entry.1 = d.name ∧
    entry.2.map Artifact.bare =
      resources.map (Artifact.blank .resource settings.javaPackage d) ++
        beans.map (Artifact.blank .bean settings.beanPackage d) ++
        enums.map (Artifact.blank .enum settings.beanPackage d)
  resources : Grouping.Distinct resources
  types : Grouping.Distinct (beans ++ enums)

theorem exists_printed {document : Tree} (parsed : Contract.ofTree document = .ok contract)
    (distinct : (Table.keys contract.schemas).Nodup) (accepted : settings.Accepted)
    {g : Generated} {w : Workspace} (h : generate document settings = .ok g w) :
    ∃ resources beans enums, Printed settings g resources beans enums := by
  unfold generate at h
  simp only [parsed] at h
  obtain ⟨ds, built, final, signed, hstages⟩ := exists_stages h
  obtain ⟨hwell, hwords⟩ := named_of_stages distinct hstages
  refine ⟨final.resources.map Resource.name, Table.keys w.tables.beans, Table.keys w.tables.enums,
    ?_⟩
  exact
    { dialects := nodup_keys_artifacts h
      some := by
        obtain ⟨d, rest, hd⟩ := List.exists_cons_of_ne_nil accepted.dialects
        have hname := (hstages.rendered.covers d (hd ▸ List.mem_cons_self)).1
        rintro hnone
        rw [hnone] at hname
        cases hname
      rows := by
        intro entry hentry
        obtain ⟨d, hd, hname, hrendered⟩ := hstages.rendered.rendered entry hentry
        exact ⟨d, accepted.known d hd, hname, hrendered.bare hwell⟩
      resources := Signature.distinct_resolveResources hstages.signing
      types := ⟨hwell.entries, fun n hn => hwords n (hwell.reserved n hn)⟩ }

namespace Printed

variable {g : Generated} {resources beans enums : List String}

theorem mem_all {a : Artifact} : a ∈ g.all ↔ ∃ entry ∈ g.artifacts, a ∈ entry.2 := by
  simp only [Generated.all, List.mem_flatten, Table.mem_values, exists_exists_and_eq_and]

/-- Every artifact is for a resource, a bean or an enum of a known dialect. -/
theorem bare (h : Printed settings g resources beans enums) {a : Artifact} (ha : a ∈ g.all) :
    ∃ d ∈ Dialect.known,
      (∃ n ∈ resources, a.bare = .blank .resource settings.javaPackage d n) ∨
      (∃ n ∈ beans, a.bare = .blank .bean settings.beanPackage d n) ∨
      ∃ n ∈ enums, a.bare = .blank .enum settings.beanPackage d n := by
  obtain ⟨entry, hentry, hrow⟩ := mem_all.mp ha
  obtain ⟨d, hd, -, hbare⟩ := h.rows entry hentry
  have hmem := List.mem_map_of_mem (f := Artifact.bare) hrow
  rw [hbare, List.mem_append, List.mem_append, List.mem_map, List.mem_map, List.mem_map] at hmem
  refine ⟨d, hd, ?_⟩
  simpa only [eq_comm (a := a.bare), or_assoc] using hmem

theorem isPlaced (h : Printed settings g resources beans enums) (accepted : settings.Accepted)
    {a : Artifact} (ha : a ∈ g.all) : a.IsPlaced := by
  have hbare : a.bare.IsPlaced := by
    obtain ⟨d, hd, ⟨n, hn, he⟩ | ⟨n, hn, he⟩ | ⟨n, hn, he⟩⟩ := h.bare ha
    · rw [he]
      exact ⟨⟨d, hd, rfl⟩, accepted.javaPackage, h.resources.words n hn⟩
    · rw [he]
      exact ⟨⟨d, hd, rfl⟩, accepted.beanPackage, h.types.words n (List.mem_append_left _ hn)⟩
    · rw [he]
      exact ⟨⟨d, hd, rfl⟩, accepted.beanPackage, h.types.words n (List.mem_append_right _ hn)⟩
  exact ⟨hbare.dialect, hbare.package, hbare.name⟩

theorem places (h : Printed settings g resources beans enums)
    {entry : String × List Artifact} (hentry : entry ∈ g.artifacts) :
    entry.2.map Artifact.place =
      resources.map (fun n => (entry.1, settings.javaPackage, n)) ++
        (beans ++ enums).map fun n => (entry.1, settings.beanPackage, n) := by
  obtain ⟨d, -, hname, hbare⟩ := h.rows entry hentry
  have hplace := congrArg (List.map Artifact.place) hbare
  simp only [List.map_append, List.map_map] at hplace
  rw [hname, List.map_append, ← List.append_assoc]
  exact hplace

theorem fst_of_mem_places (h : Printed settings g resources beans enums)
    {entry : String × List Artifact} (hentry : entry ∈ g.artifacts) {p : String × String × String}
    (hp : p ∈ entry.2.map Artifact.place) : p.1 = entry.1 := by
  rw [h.places hentry, List.mem_append] at hp
  rcases hp with hp | hp <;> (obtain ⟨n, -, rfl⟩ := List.mem_map.mp hp; rfl)

/-- In one dialect the places are distinct unless the packages are one and a name is used
for a resource and for a type. -/
theorem nodup_places_row (h : Printed settings g resources beans enums)
    {entry : String × List Artifact} (hentry : entry ∈ g.artifacts) :
    (entry.2.map Artifact.place).Nodup ↔
      (settings.beanPackage = settings.javaPackage → ∀ n ∈ resources, n ∉ beans ++ enums) := by
  have hfirst : (resources.map fun n => (entry.1, settings.javaPackage, n)).Nodup :=
    h.resources.apart.map fun m n he => by simpa using he
  have hsecond : ((beans ++ enums).map fun n => (entry.1, settings.beanPackage, n)).Nodup :=
    h.types.apart.map fun m n he => by simpa using he
  rw [h.places hentry, List.nodup_append']
  constructor
  · rintro ⟨-, -, hdisjoint⟩ hpackage n hresource htype
    refine hdisjoint (List.mem_map_of_mem hresource) ?_
    rw [← hpackage]
    exact List.mem_map_of_mem (f := fun n => (entry.1, settings.beanPackage, n)) htype
  · intro hnames
    refine ⟨hfirst, hsecond, ?_⟩
    rintro place hresource htype
    obtain ⟨n, hn, rfl⟩ := List.mem_map.mp hresource
    obtain ⟨m, hm, he⟩ := List.mem_map.mp htype
    obtain ⟨hpackage, rfl⟩ : settings.beanPackage = settings.javaPackage ∧ m = n := by
      simpa using he
    exact hnames hpackage m hn hm

theorem nodup_places (h : Printed settings g resources beans enums) :
    (g.all.map Artifact.place).Nodup ↔
      (settings.beanPackage = settings.javaPackage → ∀ n ∈ resources, n ∉ beans ++ enums) := by
  have hall : g.all.map Artifact.place = g.artifacts.flatMap fun e => e.2.map Artifact.place := by
    rw [Generated.all, List.map_flatten, Table.values, List.map_map, List.flatMap_def]
    rfl
  have hapart : g.artifacts.Pairwise
      (Function.onFun List.Disjoint fun e => e.2.map Artifact.place) := by
    refine (List.pairwise_map.mp h.dialects).imp_of_mem ?_
    intro e f he hf hne place hplace hplace'
    exact hne ((h.fst_of_mem_places he hplace).symm.trans (h.fst_of_mem_places hf hplace'))
  rw [hall, List.nodup_flatMap]
  constructor
  · rintro ⟨hrows, -⟩
    obtain ⟨entry, rest, hentry⟩ := List.exists_cons_of_ne_nil h.some
    have hmem : entry ∈ g.artifacts := hentry ▸ List.mem_cons_self
    exact (h.nodup_places_row hmem).mp (hrows entry hmem)
  · intro hnames
    exact ⟨fun entry hentry => (h.nodup_places_row hentry).mpr hnames, hapart⟩

theorem exists_artifact_iff (h : Printed settings g resources beans enums) {kind : ArtifactKind}
    {n : String} : (∃ a ∈ g.all, a.kind = kind ∧ a.name = n) ↔
      (kind, n) ∈ resources.map (ArtifactKind.resource, ·) ++ beans.map (ArtifactKind.bean, ·) ++
        enums.map (ArtifactKind.enum, ·) := by
  have hrow : ∀ entry ∈ g.artifacts, entry.2.map (fun a => (a.kind, a.name)) =
      resources.map (ArtifactKind.resource, ·) ++ beans.map (ArtifactKind.bean, ·) ++
        enums.map (ArtifactKind.enum, ·) := by
    intro entry hentry
    obtain ⟨d, -, -, hbare⟩ := h.rows entry hentry
    have hkind := congrArg (List.map fun a : Artifact => (a.kind, a.name)) hbare
    simp only [List.map_append, List.map_map] at hkind
    exact hkind
  constructor
  · rintro ⟨a, ha, rfl, rfl⟩
    obtain ⟨entry, hentry, hmem⟩ := mem_all.mp ha
    rw [← hrow entry hentry]
    exact List.mem_map_of_mem (f := fun a : Artifact => (a.kind, a.name)) hmem
  · intro hn
    obtain ⟨entry, rest, hcons⟩ := List.exists_cons_of_ne_nil h.some
    have hentry : entry ∈ g.artifacts := hcons ▸ List.mem_cons_self
    rw [← hrow entry hentry] at hn
    obtain ⟨a, ha, he⟩ := List.mem_map.mp hn
    obtain ⟨hkind, hname⟩ := Prod.mk.inj he
    exact ⟨a, mem_all.mpr ⟨entry, hentry, ha⟩, hkind, hname⟩

theorem namesApart_iff (h : Printed settings g resources beans enums) :
    g.NamesApart ↔ ∀ n ∈ resources, n ∉ beans ++ enums := by
  constructor
  · intro hapart n hresource htype
    obtain ⟨a, ha, hkind, hname⟩ := h.exists_artifact_iff.mpr (List.mem_append_left _
      (List.mem_append_left _ (List.mem_map_of_mem hresource)))
    obtain ⟨b, hb, hne, hsame⟩ : ∃ b ∈ g.all, b.kind ≠ .resource ∧ b.name = n := by
      rcases List.mem_append.mp htype with hbean | henum
      · obtain ⟨b, hb, hbean, hsame⟩ := h.exists_artifact_iff.mpr (List.mem_append_left _
          (List.mem_append_right _ (List.mem_map_of_mem hbean)))
        exact ⟨b, hb, by simp [hbean], hsame⟩
      · obtain ⟨b, hb, henum, hsame⟩ := h.exists_artifact_iff.mpr (List.mem_append_right _
          (List.mem_map_of_mem henum))
        exact ⟨b, hb, by simp [henum], hsame⟩
    exact hapart a ha b hb hkind hne (hname.trans hsame.symm)
  · intro hnames a ha b hb hkind hne hsame
    have hresource := h.exists_artifact_iff.mp ⟨a, ha, rfl, rfl⟩
    have htype := h.exists_artifact_iff.mp ⟨b, hb, rfl, rfl⟩
    rw [hkind] at hresource
    have ha : a.name ∈ resources := by simpa using hresource
    refine hnames a.name ha ?_
    rw [hsame, List.mem_append]
    cases hb : b.kind with
    | resource => exact absurd hb hne
    | bean => exact Or.inl (by simpa [hb] using htype)
    | enum => exact Or.inr (by simpa [hb] using htype)

theorem nodup_paths_iff (h : Printed settings g resources beans enums)
    (accepted : settings.Accepted) : (g.all.map Artifact.relativePath).Nodup ↔
      (settings.beanPackage = settings.javaPackage → g.NamesApart) := by
  rw [h.namesApart_iff, ← h.nodup_places]
  refine nodup_map_congr fun a ha b hb => ?_
  rw [(h.isPlaced accepted ha).relativePath_inj (h.isPlaced accepted hb)]
  simp [Artifact.place]

/-- Paths that are distinct stay so below any directory, and then every file is there. -/
theorem writesEach (h : Printed settings g resources beans enums)
    (accepted : settings.Accepted) (hpaths : (g.all.map Artifact.relativePath).Nodup)
    (out : String) : g.WritesEach out := by
  have hplain := Artifact.plain_files fun a ha => h.isPlaced accepted ha
  have hsegments : ((g.all.map fun a => (a.segments, a.body)).map Prod.fst).Nodup := by
    have hmap := List.Nodup.of_map (f := fun s => "/".intercalate s)
      (l := g.all.map Artifact.segments) (by rw [List.map_map]; exact hpaths)
    rwa [List.map_map]
  refine ⟨?_, fun place before after hplace hwritten => ?_⟩
  · rw [Artifact.map_fileOf, List.map_map]
    refine (nodup_map_congr fun f hf f' hf' => ?_).mpr hsegments
    exact CommandLine.FilePath.below_inj out (hplain f hf).1 (hplain f' hf').1
  · rw [Artifact.map_fileOf] at hwritten
    exact CommandLine.FileTree.holds_of_writeAll hsegments hplain hplace hwritten

end Printed

/-- The artifacts of a run have distinct paths, unless beans and enums are put into the
package of the resources and one of them has the name of a resource. Then, and only then,
a file would be written twice; else each artifact has one file, which holds its body. -/
theorem paths_of_generate {document : Tree} (parsed : Contract.ofTree document = .ok contract)
    (distinct : (Table.keys contract.schemas).Nodup) (accepted : settings.Accepted)
    {g : Generated} {w : Workspace} (h : generate document settings = .ok g w) :
    ((g.all.map Artifact.relativePath).Nodup ↔
      (settings.beanPackage = settings.javaPackage → g.NamesApart)) ∧
    ((settings.beanPackage = settings.javaPackage → g.NamesApart) → ∀ out, g.WritesEach out) := by
  obtain ⟨resources, beans, enums, hprinted⟩ := exists_printed parsed distinct accepted h
  have hpaths := hprinted.nodup_paths_iff accepted
  exact ⟨hpaths, fun hapart => hprinted.writesEach accepted (hpaths.mpr hapart)⟩

/-- The names of a package for everything, and of both dialects. -/
def sharedTree : Tree :=
  .map [
    (.text "beans_package", .text "org.example.api"),
    (.text "dialects", .list [.text "jaxrs", .text "thorntail"])]

def sharedSettings : Settings :=
  { beansPackage := some "org.example.api", dialects := Dialect.known }

theorem ofTree_sharedTree : Settings.ofTree sharedTree = .ok sharedSettings := by
  obtain ⟨s, hs, rfl⟩ := Outcome.exists_of_map_toOption (o := Settings.ofTree sharedTree)
    (f := fun s => s) (b := sharedSettings) (by decide +kernel)
  exact hs

/-- What is generated and written to a directory of an empty tree: the paths of the
artifacts, and how many files there are then. -/
def written (g : Generated) : List String × Option ℕ :=
  (g.all.map Artifact.relativePath,
    (CommandLine.FileTree.writeAll {} (g.all.map (CommandLine.fileOf "out"))).toOption.map
      fun t => t.files.length)

def ownersPaths : List String := [
  "jaxrs/org/example/api/OwnersResource.java", "jaxrs/org/example/api/Owner.java",
  "jaxrs/org/example/api/Pet.java", "jaxrs/org/example/api/PetSize.java",
  "thorntail/org/example/api/OwnersResource.java", "thorntail/org/example/api/Owner.java",
  "thorntail/org/example/api/Pet.java", "thorntail/org/example/api/PetSize.java"]

theorem paths_of_generate_owners :
    ∃ contract g w after, Contract.ofTree ownersDocument = .ok contract ∧
      (Table.keys contract.schemas).Nodup ∧ sharedSettings.Accepted ∧
      generate ownersDocument sharedSettings = .ok g w ∧
      sharedSettings.beanPackage = sharedSettings.javaPackage ∧ g.NamesApart ∧
      g.all.map Artifact.relativePath = ownersPaths ∧
      CommandLine.FileTree.writeAll {} (g.all.map (CommandLine.fileOf "out")) = .ok after ∧
      CommandLine.FileTree.Holds {} after ["out"] (g.all.map fun a => (a.segments, a.body)) := by
  obtain ⟨contract, parsed, hkeys⟩ := Outcome.exists_of_map_toOption
    (o := Contract.ofTree ownersDocument) (f := fun c => Table.keys c.schemas)
    (b := ["Owner", "Pet", "Shape"]) (by decide +kernel)
  have distinct : (Table.keys contract.schemas).Nodup := by
    rw [hkeys]
    decide
  have accepted := Settings.accepted_of_ofTree ofTree_sharedTree
  obtain ⟨g, w, h, hg⟩ := Step.exists_of_outcome (r := generate ownersDocument sharedSettings)
    (f := written) (b := (ownersPaths, some 8)) (by decide +kernel)
  obtain ⟨hpaths, hfiles⟩ := Prod.mk.inj hg
  obtain ⟨after, hafter, -⟩ := Outcome.exists_of_map_toOption hfiles
  obtain ⟨hdistinct, hwrites⟩ := paths_of_generate parsed distinct accepted h
  have hapart := hdistinct.mp (by rw [hpaths]; decide)
  exact ⟨contract, g, w, after, parsed, distinct, accepted, h, rfl, hapart rfl, hpaths, hafter,
    (hwrites hapart "out").files ["out"] {} after (by decide) hafter⟩

/-- A document with a schema that is named like the resource of its only path. -/
def overwrittenDocument : Tree :=
  .map [
    (.text "openapi", .text "3.0.0"),
    (.text "info", .map [(.text "title", .text "Test"), (.text "version", .text "1")]),
    (.text "paths", .map [(.text "/pets", .map [(.text "get", .map [(.text "responses", .map [
      (.text "200", .map [(.text "description", .text "ok")])])])])]),
    (.text "components", .map [(.text "schemas", .map [
      (.text "PetsResource", .map [
        (.text "type", .text "object"),
        (.text "properties", .map [(.text "id", .map [(.text "type", .text "integer")])])])])])]

/-- In each dialect the two artifacts of a run have one path, and one file of them is left. -/
theorem paths_overwritten :
    ∃ contract g w after, Contract.ofTree overwrittenDocument = .ok contract ∧
      (Table.keys contract.schemas).Nodup ∧ Settings.ofTree sharedTree = .ok sharedSettings ∧
      generate overwrittenDocument sharedSettings = .ok g w ∧ g.ok = true ∧
      g.all.map Artifact.relativePath =
        ["jaxrs/org/example/api/PetsResource.java", "jaxrs/org/example/api/PetsResource.java",
          "thorntail/org/example/api/PetsResource.java",
          "thorntail/org/example/api/PetsResource.java"] ∧
      ¬(g.all.map Artifact.relativePath).Nodup ∧
      CommandLine.FileTree.writeAll {} (g.all.map (CommandLine.fileOf "out")) = .ok after ∧
      after.files.length = 2 := by
  obtain ⟨contract, parsed, hkeys⟩ := Outcome.exists_of_map_toOption
    (o := Contract.ofTree overwrittenDocument) (f := fun c => Table.keys c.schemas)
    (b := ["PetsResource"]) (by decide +kernel)
  obtain ⟨g, w, h, hg⟩ := Step.exists_of_outcome (r := generate overwrittenDocument sharedSettings)
    (f := fun g => (g.ok, written g)) (b := (true, ["jaxrs/org/example/api/PetsResource.java",
      "jaxrs/org/example/api/PetsResource.java", "thorntail/org/example/api/PetsResource.java",
      "thorntail/org/example/api/PetsResource.java"], some 2)) (by decide +kernel)
  obtain ⟨hok, hg⟩ := Prod.mk.inj hg
  obtain ⟨hpaths, hfiles⟩ := Prod.mk.inj hg
  obtain ⟨after, hafter, hlength⟩ := Outcome.exists_of_map_toOption hfiles
  refine ⟨contract, g, w, after, parsed, ?_, ofTree_sharedTree, h, hok, hpaths, ?_, hafter, hlength⟩
  · rw [hkeys]
    decide
  · rw [hpaths]
    decide

end Generation

end ApiContract
