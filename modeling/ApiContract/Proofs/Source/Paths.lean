import ApiContract.Proofs.CommandLine.Files
import ApiContract.Proofs.Naming.Legal
import ApiContract.Proofs.Settings
import ApiContract.Source.Artifact

/-! # Paths of artifacts

The segments of the path of an artifact are plain names that hold no slash, and the parts of
its package hold no point. So its path tells its dialect, its package and its name.
-/
namespace ApiContract

theorem Naming.IsWord.slash_notMem {w : Word} (h : IsWord w) : '/' ∉ w := by
  intro hslash
  have hpart := h.parts '/' hslash
  revert hpart
  decide

theorem Text.isIdentifier_plain {w : List Char} (h : isIdentifier w = true) :
    '/' ∉ w ∧ ∃ c rest, w = c :: rest ∧ c ≠ '.' := by
  have hslash : identifierStartRanges.has '/' = false ∧ identifierPartRanges.has '/' = false := by
    decide +kernel
  have hpoint : identifierStartRanges.has '.' = false := by decide +kernel
  cases w with
  | nil => cases h
  | cons c rest =>
    simp only [isIdentifier, Bool.and_eq_true, List.all_eq_true] at h
    refine ⟨fun hmem => ?_, c, rest, rfl, ?_⟩
    · rcases List.mem_cons.mp hmem with rfl | hmem
      · exact Bool.false_ne_true (hslash.1.symm.trans h.1)
      · exact Bool.false_ne_true (hslash.2.symm.trans (h.2 _ hmem))
    · rintro rfl
      exact Bool.false_ne_true (hpoint.symm.trans h.1)

namespace Artifact

open CommandLine

/-- An artifact with a known dialect, an accepted package and a word for its name. -/
structure IsPlaced (a : Artifact) : Prop where
  dialect : ∃ d ∈ Dialect.known, a.dialect = d.name
  package : Settings.isPackage a.package = true
  name : Naming.IsWord a.name.toList

variable {a b : Artifact}

theorem isPlain_packageParts {package : String} (h : Settings.isPackage package = true) :
    ∀ n ∈ packageParts package, FilePath.IsPlain n ∧ n ≠ ".." := by
  intro n hn
  obtain ⟨w, hw, rfl⟩ := List.mem_map.mp hn
  obtain ⟨hslash, c, rest, rfl, hc⟩ := Text.isIdentifier_plain (List.all_eq_true.mp h w hw)
  have hstart : ∀ s : String, s.toList.head? ≠ some c → String.ofList (c :: rest) ≠ s := by
    rintro s hs rfl
    exact hs (by simp)
  exact ⟨⟨hstart "" (by simp), hstart "." (by simpa using Ne.symm hc), by simpa using hslash⟩,
    hstart ".." (by simpa using Ne.symm hc)⟩

theorem isPlain_fileName {name : String} (h : Naming.IsWord name.toList) :
    FilePath.IsPlain (name ++ ".java") ∧ name ++ ".java" ≠ ".." := by
  have hlength : 5 ≤ (name ++ ".java").toList.length := by simp
  have hshort : ∀ s : String, s.toList.length < 5 → name ++ ".java" ≠ s := by
    rintro s hs rfl
    omega
  refine ⟨⟨hshort "" (by decide), hshort "." (by decide), ?_⟩, hshort ".." (by decide)⟩
  rw [String.toList_append, List.mem_append]
  rintro (hmem | hmem)
  · exact h.slash_notMem hmem
  · revert hmem
    decide

theorem isPlain_dialect {d : Dialect} (h : d ∈ Dialect.known) :
    FilePath.IsPlain d.name ∧ d.name ≠ ".." := by
  have hall : ∀ d ∈ Dialect.known, d.name ≠ "" ∧ d.name ≠ "." ∧ '/' ∉ d.name.toList ∧
      d.name ≠ ".." := by decide
  obtain ⟨hne, hpoint, hslash, hup⟩ := hall d h
  exact ⟨⟨hne, hpoint, hslash⟩, hup⟩

theorem IsPlaced.segments (h : a.IsPlaced) :
    ∀ n ∈ a.segments, FilePath.IsPlain n ∧ n ≠ ".." := by
  obtain ⟨d, hd, hdialect⟩ := h.dialect
  intro n hn
  rw [Artifact.segments, List.mem_append, List.mem_cons] at hn
  rcases hn with (rfl | hn) | hn
  · rw [hdialect]
    exact isPlain_dialect hd
  · exact isPlain_packageParts h.package n hn
  · rw [List.mem_singleton.mp hn]
    exact isPlain_fileName h.name

theorem packageParts_inj {p q : String} : packageParts p = packageParts q ↔ p = q := by
  refine ⟨fun h => ?_, congrArg _⟩
  have hsplit := List.map_injective_iff.mpr (fun _ _ => String.ofList_injective) h
  have hjoin := congrArg (Text.joinWith ['.']) hsplit
  rw [Text.joinWith_splitAt, Text.joinWith_splitAt] at hjoin
  exact String.toList_inj.mp hjoin

theorem segments_inj : a.segments = b.segments ↔
    a.dialect = b.dialect ∧ a.package = b.package ∧ a.name = b.name := by
  constructor
  · intro h
    obtain ⟨hdirectory, hfile⟩ := List.append_inj' h rfl
    obtain ⟨hdialect, hpackage⟩ := List.cons.inj hdirectory
    have hname := (String.append_left_inj ".java").mp (List.singleton_inj.mp hfile)
    exact ⟨hdialect, packageParts_inj.mp hpackage, hname⟩
  · rintro ⟨hdialect, hpackage, hname⟩
    rw [segments, segments, hdialect, hpackage, hname]

theorem IsPlaced.relativePath_inj (ha : a.IsPlaced) (hb : b.IsPlaced) :
    a.relativePath = b.relativePath ↔
      a.dialect = b.dialect ∧ a.package = b.package ∧ a.name = b.name := by
  rw [← segments_inj]
  refine ⟨fun h => ?_, congrArg _⟩
  have hcut := congrArg FilePath.components h
  rwa [relativePath, relativePath,
    FilePath.components_intercalate fun n hn => (ha.segments n hn).1,
    FilePath.components_intercalate fun n hn => (hb.segments n hn).1] at hcut

end Artifact

end ApiContract
