import ApiContract.Proofs.Run.Paths

/-! # Artifacts stay below their directory

Names of components, tags, hints and paths come into the names of artifacts, and settings into
their packages. However they are written, the path of an artifact is the name of a dialect,
the parts of its package and a file that is named by a word. None of these leads up or holds a
slash, so that writing the artifacts changes files below the output directory only.
-/
namespace ApiContract

open TypeTables

variable {contract : Contract} {settings : Settings}

namespace Artifact

variable {a : Artifact}

/-- An artifact of a dialect and in a package of the settings, the path of which is made of
names that lead down. -/
structure Confined (settings : Settings) (a : Artifact) : Prop extends a.IsPlaced where
  chosen : ∃ d ∈ settings.dialects, a.dialect = d.name
  home : a.package = settings.javaPackage ∨ a.package = settings.beanPackage
  cut : (Text.splitAt '/' a.relativePath.toList).map String.ofList =
    a.dialect :: packageParts a.package ++ [a.name ++ ".java"]
  down : ∀ s ∈ a.segments, s ≠ "" ∧ s ≠ "." ∧ s ≠ ".." ∧ '/' ∉ s.toList

/-- Cutting the path at every slash gives back its segments. -/
theorem IsPlaced.splitAt_relativePath (h : a.IsPlaced) :
    (Text.splitAt '/' a.relativePath.toList).map String.ofList = a.segments := by
  have hslash : ∀ s ∈ a.segments.map String.toList, '/' ∉ s := by
    intro s hs
    obtain ⟨n, hn, rfl⟩ := List.mem_map.mp hs
    exact (h.segments n hn).1.whole
  have hpath := Grouping.toList_path a.segments
  have hcons : Path.pathOf (a.segments.map String.toList) =
      Path.rooted (a.segments.map String.toList) := rfl
  have hcut := Path.splitAt_rooted hslash
  rw [← hcons, ← hpath, String.toList_append] at hcut
  have hrest : Text.splitAt '/' a.relativePath.toList = a.segments.map String.toList :=
    (List.cons.inj hcut).2
  rw [hrest, List.map_map]
  simp

theorem IsPlaced.confined (h : a.IsPlaced) (chosen : ∃ d ∈ settings.dialects, a.dialect = d.name)
    (home : a.package = settings.javaPackage ∨ a.package = settings.beanPackage) :
    a.Confined settings :=
  { h with
    chosen, home
    cut := h.splitAt_relativePath
    down := fun s hs =>
      have hs := h.segments s hs
      ⟨hs.1.nonempty, hs.1.other, hs.2, hs.1.whole⟩ }

theorem confined_of_bare {kind : ArtifactKind} {package name : String} {d : Dialect}
    (accepted : settings.Accepted) (hd : d ∈ settings.dialects)
    (home : package = settings.javaPackage ∨ package = settings.beanPackage)
    (word : Naming.IsWord name.toList) (h : a.bare = blank kind package d name) :
    a.Confined settings := by
  have hdialect : a.dialect = d.name := congrArg Artifact.dialect h
  have hpackage : a.package = package := congrArg Artifact.package h
  have hname : a.name = name := congrArg Artifact.name h
  have hvalid : Settings.isPackage package = true := by
    rcases home with rfl | rfl
    · exact accepted.javaPackage
    · exact accepted.beanPackage
  have hplaced : a.IsPlaced :=
    ⟨⟨d, accepted.known d hd, hdialect⟩, hpackage ▸ hvalid, hname ▸ word⟩
  exact hplaced.confined ⟨d, hd, hdialect⟩ (hpackage ▸ home)

end Artifact

namespace Generation

/-- Artifacts that print resources, beans and enums with words for their names are confined. -/
theorem Rendered.confined {signatures : Table String Signature} {resources : List Resource}
    {t : TypeTables} {d : Dialect} {artifacts : List Artifact} (accepted : settings.Accepted)
    (hd : d ∈ settings.dialects) (hresources : Grouping.Distinct (resources.map Resource.name))
    (ht : t.Linked contract) (hwords : t.Worded)
    (h : Rendered signatures settings (modelOf resources t) d artifacts) :
    ∀ a ∈ artifacts, a.Confined settings := by
  obtain ⟨rs, bs, es, hrs, hbs, hes, rfl⟩ := h
  have hentry : ∀ n ∈ t.entryNames, Naming.IsWord n.toList :=
    fun n hn => hwords n (ht.reserved n hn)
  intro a ha
  rcases List.mem_append.mp ha with ha | ha
  · rcases List.mem_append.mp ha with ha | ha
    · obtain ⟨r, hr, hprint⟩ := Outcome.exists_of_mem_mapM hrs ha
      exact Artifact.confined_of_bare accepted hd (Or.inl rfl)
        (hresources.words r.name (List.mem_map_of_mem hr)) (Artifact.bare_ofResource hprint)
    · obtain ⟨b, hb, hprint⟩ := Outcome.exists_of_mem_mapM hbs ha
      obtain ⟨e, he, rfl⟩ := Table.mem_values.mp hb
      have hname : e.2.name ∈ t.entryNames :=
        List.mem_append_left _ (ht.beanNames e he ▸ Table.mem_keys_of_mem he)
      exact Artifact.confined_of_bare accepted hd (Or.inr rfl) (hentry _ hname)
        (Artifact.bare_ofBean hprint)
  · obtain ⟨b, hb, hprint⟩ := Outcome.exists_of_mem_mapM hes ha
    obtain ⟨e, he, rfl⟩ := Table.mem_values.mp hb
    have hname : e.2.name ∈ t.entryNames :=
      List.mem_append_right _ (ht.enumNames e he ▸ Table.mem_keys_of_mem he)
    exact Artifact.confined_of_bare accepted hd (Or.inr rfl) (hentry _ hname)
      (Artifact.bare_ofEnum hprint)

/-- Writing confined artifacts below a directory is confined to their places. -/
theorem confined_writeAll {artifacts : List Artifact} {out : String}
    {before after : CommandLine.FileTree} (h : ∀ a ∈ artifacts, a.Confined settings)
    (hwritten : before.writeAll (artifacts.map (CommandLine.fileOf out)) = .ok after) :
    CommandLine.FileTree.Confined out (artifacts.map Artifact.segments) before after := by
  have hplain := Artifact.plain_files fun a ha => (h a ha).toIsPlaced
  rw [Artifact.map_fileOf] at hwritten
  have hconfined := CommandLine.FileTree.confined_writeAll hplain hwritten
  rwa [List.map_map] at hconfined

/-- Whatever a document says, the artifacts of a run are confined, and to write any of them
below a directory changes only files at their places there. -/
theorem confined_of_generate {document : Tree} (accepted : settings.Accepted) {g : Generated}
    {w : Workspace} (h : generate document settings = .ok g w) :
    (∀ a ∈ g.all, a.Confined settings) ∧
      ∀ out artifacts before after, artifacts ⊆ g.all →
        CommandLine.FileTree.writeAll before (artifacts.map (CommandLine.fileOf out)) = .ok after →
        CommandLine.FileTree.Confined out (artifacts.map Artifact.segments) before after := by
  have hall : ∀ a ∈ g.all, a.Confined settings := by
    unfold generate at h
    cases parsed : Contract.ofTree document with
    | error e =>
      simp only [parsed] at h
      cases h
    | ok contract =>
      simp only [parsed] at h
      obtain ⟨ds, built, final, signed, hstages⟩ := exists_stages h
      intro a ha
      obtain ⟨entry, hentry, hmem⟩ := Printed.mem_all.mp ha
      obtain ⟨d, hd, -, hrendered⟩ := hstages.rendered.rendered entry hentry
      exact hrendered.confined accepted hd (Signature.distinct_resolveResources hstages.signing)
        (linked_of_stages hstages).2.tables (worded_of_stages hstages) a hmem
  exact ⟨hall, fun out artifacts before after hsub hwritten =>
    confined_writeAll (fun a ha => hall a (hsub ha)) hwritten⟩

/-- A document with names that would lead up if they were taken as they are. -/
def climbingDocument : Tree :=
  .map [
    (.text "openapi", .text "3.0.0"),
    (.text "paths", .map [(.text "/../up", .map [(.text "get", .map [
      (.text "responses", .map [(.text "200", .map [(.text "description", .text "ok")])])])])]),
    (.text "components", .map [(.text "schemas", .map [
      (.text "../../etc/passwd", .map [(.text "properties", .map [
        (.text "../x", .map [(.text "properties", .map [
          (.text "id", .map [(.text "type", .text "string")])])])])]),
      (.text "..", .map [(.text "enum", .list [.text "/"])])])])]

def climbingPaths : List String := [
  "jaxrs/org/example/api/valueResource.java", "jaxrs/org/example/api/beans/EtcPasswdX.java",
  "jaxrs/org/example/api/beans/EtcPasswd.java", "jaxrs/org/example/api/beans/value.java"]

theorem confined_of_generate_climbing :
    ∃ g w after, Settings.Accepted {} ∧ generate climbingDocument {} = .ok g w ∧
      g.all.map Artifact.relativePath = climbingPaths ∧ (∀ a ∈ g.all, a.Confined {}) ∧
      CommandLine.FileTree.writeAll {} (g.all.map (CommandLine.fileOf "out")) = .ok after ∧
      CommandLine.FileTree.Confined "out" (g.all.map Artifact.segments) {} after := by
  obtain ⟨g, w, h, hg⟩ := Step.exists_of_outcome (r := generate climbingDocument {})
    (f := written) (b := (climbingPaths, some 4)) (by decide +kernel)
  obtain ⟨hpaths, hfiles⟩ := Prod.mk.inj hg
  obtain ⟨after, hafter, -⟩ := Outcome.exists_of_map_toOption hfiles
  obtain ⟨hall, hwrites⟩ := confined_of_generate Settings.accepted_default h
  exact ⟨g, w, after, Settings.accepted_default, h, hpaths, hall, hafter,
    hwrites "out" g.all {} after (List.Subset.refl _) hafter⟩

end Generation

end ApiContract
