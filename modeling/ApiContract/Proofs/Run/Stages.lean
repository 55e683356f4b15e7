import ApiContract.Proofs.Endpoint.Attempts
import ApiContract.Proofs.Table
import ApiContract.Run.Generation

/-! # The stages of a run

A run that gives a result went through its stages: the tables were built, the operations
grouped and attempted, and every resource, bean and enum printed for each dialect.
Grouping, printing and reporting leave the tables and the signatures alone.
-/
namespace ApiContract

/-- A step that leaves the tables and the signatures alone when it succeeds. -/
def Step.Silent {α : Type} (step : Step α) : Prop :=
  ∀ w a w', step w = .ok a w' → w'.tables = w.tables ∧ w'.signatures = w.signatures

theorem Step.Silent.compositional : Step.Compositional fun _ step => Step.Silent step where
  pure := by
    intro α a w b w' h
    cases h
    exact ⟨rfl, rfl⟩
  lift := by
    intro α o _ w a w' h
    obtain ⟨-, rfl⟩ := Step.lift_eq_ok.mp h
    exact ⟨rfl, rfl⟩
  fail := by
    intro α e _ w a w' h
    cases h
  record := by
    intro event w a w' h
    cases h
    exact ⟨rfl, rfl⟩
  bind := by
    intro α β x f hx hf w b w' h
    obtain ⟨a, v, ha, h⟩ := Step.bind_eq_ok.mp h
    obtain ⟨ht, hs⟩ := hx w a v ha
    obtain ⟨ht', hs'⟩ := hf a v b w' h
    exact ⟨ht'.trans ht, hs'.trans hs⟩

variable {contract : Contract} {settings : Settings}

section Compositional
variable {P : ∀ α : Type, Step α → Prop} (hP : Step.Compositional P)
include hP

theorem Grouping.addResource_of (grouped : Grouped) (entry : String × Group) :
    P Grouped (addResource settings grouped entry) := by
  refine hP.bind (hP.lift (plain_resourceOf settings _ _)) fun resource => ?_
  cases hd : distinguish resource with
  | ok named => exact hP.map (hP.record _) _
  | error failure =>
    cases failure with
    | naming clash location => exact hP.map (hP.record _) _
    | _ => exact hP.fail (plain_distinguish resource _ hd)

theorem Grouping.group_of : P Grouped (group contract settings) := by
  refine hP.bind (hP.lift (plain_groupsOf settings contract)) fun groups => ?_
  exact hP.foldlM (fun grouped entry _ => addResource_of hP grouped entry) _

end Compositional

theorem Signature.resolveResources_eq_ok {final : Grouping.Grouped} {w w' : Workspace}
    (h : resolveResources contract settings w = .ok final w') :
    ∃ grouped v refused, Grouping.group contract settings w = .ok grouped v ∧
      v.tables = w.tables ∧ v.signatures = w.signatures ∧
      Attempts contract settings (grouped.resources.flatMap Resource.endpoints) v
        (final.resources.flatMap Resource.endpoints) refused w' ∧
      final.diagnostics = grouped.diagnostics ++ refusals refused := by
  obtain ⟨grouped, v, hgrouped, h⟩ := Step.bind_eq_ok.mp h
  obtain ⟨emitted, refused, hattempts, hresources, hdiagnostics⟩ := attempts_of_signResources h
  obtain ⟨ht, hs⟩ := Grouping.group_of Step.Silent.compositional w grouped v hgrouped
  simp only [List.nil_append] at hresources
  exact ⟨grouped, v, refused, hgrouped, ht, hs, hresources ▸ hattempts, hdiagnostics⟩

namespace Generation

/-- Artifacts that print each resource, bean and enum of a model for a dialect. -/
def Rendered (signatures : Table String Signature) (settings : Settings) (model : Model)
    (d : Dialect) (artifacts : List Artifact) : Prop :=
  ∃ resources beans enums,
    model.resources.mapM (Artifact.ofResource signatures d settings) = .ok resources ∧
    model.beans.mapM (Artifact.ofBean d settings) = .ok beans ∧
    model.enums.mapM (Artifact.ofEnum d settings) = .ok enums ∧
    artifacts = resources ++ beans ++ enums

/-- Artifacts under the names of the dialects, each dialect having some of its own. -/
structure RenderedEach (signatures : Table String Signature) (settings : Settings)
    (model : Model) (dialects : List Dialect) (artifacts : Table String (List Artifact)) :
    Prop where
  covers : ∀ d ∈ dialects, d.name ∈ Table.keys artifacts ∧
    ∃ rendered, Rendered signatures settings model d rendered
  rendered : ∀ entry ∈ artifacts, ∃ d ∈ dialects, entry.1 = d.name ∧
    Rendered signatures settings model d entry.2

theorem addDialect_eq_ok {model : Model} {artifacts artifacts' : Table String (List Artifact)}
    {d : Dialect} {w w' : Workspace}
    (h : addDialect settings model artifacts d w = .ok artifacts' w') :
    w'.tables = w.tables ∧ w'.signatures = w.signatures ∧
      ∃ rendered, Rendered w.signatures settings model d rendered ∧
        artifacts' = Table.put artifacts d.name rendered := by
  obtain ⟨rendered, v, hrender, h⟩ := Step.bind_eq_ok.mp h
  cases h
  obtain ⟨_, u, hget, hrender⟩ := Step.bind_eq_ok.mp hrender
  cases hget
  obtain ⟨resources, u, hlift, hrender⟩ := Step.bind_eq_ok.mp hrender
  obtain ⟨hresources, rfl⟩ := Step.lift_eq_ok.mp hlift
  obtain ⟨beans, u, hlift, hrender⟩ := Step.bind_eq_ok.mp hrender
  obtain ⟨hbeans, rfl⟩ := Step.lift_eq_ok.mp hlift
  obtain ⟨enums, u, hlift, hrender⟩ := Step.bind_eq_ok.mp hrender
  obtain ⟨henums, rfl⟩ := Step.lift_eq_ok.mp hlift
  cases hrender
  exact ⟨rfl, rfl, _, ⟨resources, beans, enums, hresources, hbeans, henums, rfl⟩, rfl⟩

theorem renderedEach_of_foldlM {model : Model} {dialects done : List Dialect}
    {artifacts artifacts' : Table String (List Artifact)} {w w' : Workspace}
    (h : dialects.foldlM (addDialect settings model) artifacts w = .ok artifacts' w')
    (hw : RenderedEach w.signatures settings model done artifacts) :
    w'.tables = w.tables ∧ w'.signatures = w.signatures ∧
      RenderedEach w.signatures settings model (done ++ dialects) artifacts' := by
  induction dialects generalizing artifacts done w with
  | nil =>
    cases h
    exact ⟨rfl, rfl, by simpa using hw⟩
  | cons d rest ih =>
    rw [List.foldlM_cons] at h
    obtain ⟨next, v, hnext, h⟩ := Step.bind_eq_ok.mp h
    obtain ⟨ht, hs, rendered, hrendered, rfl⟩ := addDialect_eq_ok hnext
    have hv : RenderedEach v.signatures settings model (done ++ [d])
        (Table.put artifacts d.name rendered) :=
      { covers := by
          intro d' hd'
          rcases List.mem_append.mp hd' with hd' | hd'
          · obtain ⟨hname, hr⟩ := hw.covers d' hd'
            exact ⟨Table.mem_keys_put.mpr (Or.inr hname), hs ▸ hr⟩
          · rw [List.mem_singleton.mp hd']
            exact ⟨Table.mem_keys_put.mpr (Or.inl rfl), rendered, hs ▸ hrendered⟩
        rendered := by
          intro entry hentry
          rcases Table.mem_put hentry with hentry | rfl
          · obtain ⟨d', hd', hname, hr⟩ := hw.rendered entry hentry
            exact ⟨d', List.mem_append_left _ hd', hname, hs ▸ hr⟩
          · exact ⟨d, by simp, rfl, hs ▸ hrendered⟩ }
    obtain ⟨ht', hs', hall⟩ := ih h hv
    refine ⟨ht'.trans ht, hs'.trans hs, ?_⟩
    simpa [hs] using hall

theorem report_of {P : ∀ α : Type, Step α → Prop} (hP : Step.Compositional P) (resources : Nat)
    (diagnostics : List Diagnostic) : P Unit (report contract resources diagnostics) := by
  refine hP.bind ?_ fun _ => hP.record _
  induction diagnostics with
  | nil => exact hP.pure _
  | cons d rest ih =>
    rw [List.forIn_cons]
    refine hP.bind (hP.map (hP.record _) _) fun r => ?_
    split
    · exact hP.pure _
    · exact ih

def modelOf (resources : List Resource) (t : TypeTables) : Model :=
  { resources, beans := Table.values t.beans, enums := Table.values t.enums }

/-- A run that gives a result: the tables that were built, the resources with signatures
over them, and the artifacts printed from the outcome. -/
structure Stages (contract : Contract) (settings : Settings) (w : Workspace) (g : Generated)
    (w' : Workspace) (ds : List Diagnostic) (built : Workspace) (final : Grouping.Grouped)
    (signed : Workspace) : Prop where
  building : Types.buildTables contract w = .ok ds built
  signing : Signature.resolveResources contract settings built = .ok final signed
  tables : w'.tables = signed.tables
  signatures : w'.signatures = signed.signatures
  diagnostics : g.diagnostics = ds ++ final.diagnostics
  rendered : RenderedEach w'.signatures settings (modelOf final.resources w'.tables)
    settings.dialects g.artifacts

/-- The tables at the end are those that the attempts of the operations left. -/
theorem Stages.exists_attempts {g : Generated} {w w' : Workspace} {ds : List Diagnostic}
    {built : Workspace} {final : Grouping.Grouped} {signed : Workspace}
    (h : Stages contract settings w g w' ds built final signed) :
    ∃ es v refused, v.tables = built.tables ∧ v.signatures = built.signatures ∧
      Signature.Attempts contract settings es v (final.resources.flatMap Resource.endpoints)
        refused signed := by
  obtain ⟨grouped, v, refused, -, ht, hs, hattempts, -⟩ :=
    Signature.resolveResources_eq_ok h.signing
  exact ⟨_, v, refused, ht, hs, hattempts⟩

/-- What the tables have once they are built and every attempt keeps, they have at the end. -/
theorem Stages.keeps {P : TypeTables → Prop}
    (hP : ∀ op method v, P v.tables →
      P (Step.outcome (Signature.resolve contract settings op method v)).2)
    {g : Generated} {w w' : Workspace} {ds : List Diagnostic} {built : Workspace}
    {final : Grouping.Grouped} {signed : Workspace}
    (h : Stages contract settings w g w' ds built final signed) (hbuilt : P built.tables) :
    P w'.tables := by
  obtain ⟨es, v, refused, hv, -, hattempts⟩ := h.exists_attempts
  exact h.tables ▸ hattempts.keeps hP (hv ▸ hbuilt)

theorem exists_stages {g : Generated} {w w' : Workspace}
    (h : fromContract contract settings w = .ok g w') :
    ∃ ds built final signed, Stages contract settings w g w' ds built final signed := by
  obtain ⟨ds, built, htables, h⟩ := Step.bind_eq_ok.mp h
  obtain ⟨final, u, hresolve, h⟩ := Step.bind_eq_ok.mp h
  obtain ⟨t, u', ht, h⟩ := Step.bind_eq_ok.mp h
  cases ht
  obtain ⟨artifacts, v, hartifacts, h⟩ := Step.bind_eq_ok.mp h
  obtain ⟨⟨⟩, v', hreport, h⟩ := Step.bind_eq_ok.mp h
  cases h
  obtain ⟨hreportTables, hreportSignatures⟩ := report_of Step.Silent.compositional _ _ _ _ _ hreport
  have hnone : ∀ model, RenderedEach u.signatures settings model [] [] := fun _ =>
    ⟨by simp, by simp⟩
  obtain ⟨hv, hsv, hrendered⟩ := renderedEach_of_foldlM hartifacts (hnone _)
  rw [List.nil_append] at hrendered
  refine ⟨ds, built, final, u, ?_⟩
  exact
    { building := htables, signing := hresolve
      tables := hreportTables.trans hv
      signatures := hreportSignatures.trans hsv
      diagnostics := rfl
      rendered := by
        rw [hreportTables, hreportSignatures, hv, hsv]
        exact hrendered }

end Generation

end ApiContract
