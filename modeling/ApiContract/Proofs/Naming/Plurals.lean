import ApiContract.Proofs.Naming.Methods

/-! # Plurals are kept

A word that ends in `s`, but not in `ss`, `us` or `is`, is a plural: it has another singular or
stands in the table, and its plural is the word itself. All plurals are of this kind or stand in
the table, except those of words in `i` and `u`, which get an `s` and then count as singulars. So
the plural of a plural is the plural again for all other words, and for these it has `es` behind it.
-/
namespace ApiContract.Naming

theorem endsWith_iff {w : Word} {ending : String} :
    endsWith w ending = true ↔ ∃ stem, w = stem ++ ending.toList := by
  rw [endsWith, List.isSuffixOf_iff_suffix]
  exact exists_congr fun _ => eq_comm

theorem endsWith_s_iff {w : Word} : endsWith w "s" = true ↔ ∃ stem, w = stem ++ ['s'] :=
  endsWith_iff

/-- Which of these endings an `s` completes is told by the character before it. -/
theorem endsWithAny_concat_s (w : Word) :
    endsWithAny (w ++ ['s']) ["ss", "us", "is"] = endsWithAny w ["s", "u", "i"] := by
  simp [endsWithAny, endsWith, List.isSuffixOf]

theorem dropEnd_ne_self {w : Word} {n : ℕ} (hn : n ≠ 0) (hw : w ≠ []) : dropEnd n w ≠ w := by
  intro h
  have hlength := congrArg List.length h
  have hpos := List.length_pos_of_ne_nil hw
  rw [dropEnd, List.length_take] at hlength
  omega

section Table

variable {p : Word → Bool} {w : Word}

/-- A word that is told apart from all words on one side of the table is not found there. -/
theorem find?_noun_eq_none {side : String × String → String}
    (htable : ∀ n ∈ irregularNouns, p (side n).toList = false) (h : p w = true) :
    (irregularNouns.find? fun n => (side n).toList == w) = none := by
  refine List.find?_eq_none.mpr fun n hn heq => ?_
  have hfalse := htable n hn
  rw [beq_iff_eq.mp heq, h] at hfalse
  cases hfalse

theorem irregularPlural?_eq_none (htable : ∀ n ∈ irregularNouns, p n.1.toList = false)
    (h : p w = true) : irregularPlural? w = none :=
  Option.map_eq_none_iff.mpr (find?_noun_eq_none htable h)

theorem irregularSingular?_eq_none (htable : ∀ n ∈ irregularNouns, p n.2.toList = false)
    (h : p w = true) : irregularSingular? w = none :=
  Option.map_eq_none_iff.mpr (find?_noun_eq_none htable h)

theorem exists_noun_of_irregularPlural? {plural : Word} (h : irregularPlural? w = some plural) :
    ∃ n ∈ irregularNouns, n.1.toList = w ∧ n.2.toList = plural := by
  obtain ⟨n, hn, hplural⟩ := Option.map_eq_some_iff.mp h
  have hw : n.1.toList = w := by simpa only [beq_iff_eq] using List.find?_some hn
  exact ⟨n, List.mem_of_find?_eq_some hn, hw, hplural⟩

end Table

/-- Words in `s` that count as plurals unless the table says otherwise. -/
def isPlural (w : Word) : Bool := endsWith w "s" && !endsWithAny w ["ss", "us", "is"]

/-- A singular that does not count as a plural, with a plural that is its own plural. Neither ends
in `i` or `u`, and if the singular is in `us` or `is`, then its plural is the regular one. -/
structure TableNoun (v w : Word) : Prop where
  single : isPlural v = false ∧ endsWithAny v ["i", "u"] = false
  plural : endsWithAny w ["us", "is"] = false ∧ endsWithAny w ["i", "u"] = false
  kept : pluralize w = w
  regular : endsWithAny v ["us", "is"] = true → w = v ++ ['e', 's']

theorem tableNoun_of_mem : ∀ n ∈ irregularNouns, TableNoun n.1.toList n.2.toList := by
  have hall : ∀ n ∈ irregularNouns,
      (isPlural n.1.toList = false ∧ endsWithAny n.1.toList ["i", "u"] = false) ∧
      (endsWithAny n.2.toList ["us", "is"] = false ∧ endsWithAny n.2.toList ["i", "u"] = false) ∧
      pluralize n.2.toList = n.2.toList ∧
      (endsWithAny n.1.toList ["us", "is"] = true → n.2.toList = n.1.toList ++ ['e', 's']) := by
    decide +kernel
  intro n hn
  obtain ⟨hsingle, hplural, hkept, hregular⟩ := hall n hn
  exact ⟨hsingle, hplural, hkept, hregular⟩

variable {w : Word}

theorem singularize_ne_self (h : isPlural w = true) (hsingular : irregularSingular? w = none) :
    singularize w ≠ w := by
  have hplural : irregularPlural? w = none :=
    irregularPlural?_eq_none (fun n hn => (tableNoun_of_mem n hn).single.1) h
  obtain ⟨stem, hstem⟩ := endsWith_s_iff.mp (Bool.and_eq_true_iff.mp h).1
  have hne : w ≠ [] := by simp [hstem]
  unfold singularize
  simp only [hsingular, hplural, Option.isSome_none, Bool.false_eq_true, if_false]
  split_ifs with hies hes hs
  · obtain ⟨stem, rfl⟩ := endsWith_iff.mp hies
    simp [dropEnd]
  · exact dropEnd_ne_self (by decide) hne
  · exact dropEnd_ne_self (by decide) hne
  · exact absurd h hs

/-- What counts as a plural is its own plural. -/
theorem pluralize_of_isPlural (h : isPlural w = true) : pluralize w = w := by
  have hplural : irregularPlural? w = none :=
    irregularPlural?_eq_none (fun n hn => (tableNoun_of_mem n hn).single.1) h
  unfold pluralize
  simp only [hplural]
  cases hsingular : irregularSingular? w with
  | some s => simp
  | none => simp [singularize_ne_self h hsingular]

/-- The ways to form a plural. -/
theorem pluralize_cases (w : Word) :
    (∃ n ∈ irregularNouns, n.1.toList = w ∧ pluralize w = n.2.toList) ∨ pluralize w = w ∨
      (∃ stem, pluralize w = stem ++ ['i', 'e', 's']) ∨ pluralize w = w ++ ['e', 's'] ∨
      (endsWith w "s" = false ∧ pluralize w = w ++ ['s']) := by
  cases hplural : irregularPlural? w with
  | some plural =>
    obtain ⟨n, hn, hw, rfl⟩ := exists_noun_of_irregularPlural? hplural
    exact Or.inl ⟨n, hn, hw, by rw [pluralize, hplural]⟩
  | none =>
    right
    unfold pluralize
    simp only [hplural]
    split_ifs with hkept hy hes
    · exact Or.inl rfl
    · exact Or.inr (Or.inl ⟨_, rfl⟩)
    · exact Or.inr (Or.inr (Or.inl rfl))
    · refine Or.inr (Or.inr (Or.inr ⟨?_, rfl⟩))
      simp only [endsWithAny, List.any_cons, Bool.or_eq_true, not_or] at hes
      exact Bool.eq_false_iff.mpr hes.1

/-- The plural is kept, unless an `s` was put behind an `i` or a `u`. -/
theorem pluralize_pluralize_of_not (h : endsWithAny w ["i", "u"] = false) :
    pluralize (pluralize w) = pluralize w := by
  rcases pluralize_cases w with ⟨n, hn, -, hp⟩ | hp | ⟨stem, hp⟩ | hp | ⟨hs, hp⟩
  · rw [hp, (tableNoun_of_mem n hn).kept]
  · rw [hp, hp]
  · rw [hp]
    refine pluralize_of_isPlural ?_
    simp [isPlural, endsWithAny, endsWith, List.isSuffixOf, List.isPrefixOf]
  · rw [hp]
    refine pluralize_of_isPlural ?_
    simp [isPlural, endsWithAny, endsWith, List.isSuffixOf, List.isPrefixOf]
  · rw [hp]
    refine pluralize_of_isPlural ?_
    rw [isPlural, endsWithAny_concat_s, endsWith_s_iff.mpr ⟨w, rfl⟩]
    simp only [endsWithAny, List.any_cons, List.any_nil, Bool.or_false, Bool.or_eq_false_iff] at h ⊢
    simp [hs, h]

/-- A word in `us` or `is` counts as a singular, also when an `s` has just been put there. -/
theorem pluralize_of_single (h : endsWithAny w ["us", "is"] = true) :
    pluralize w = w ++ ['e', 's'] := by
  have hsingular : irregularSingular? w = none :=
    irregularSingular?_eq_none (p := fun v => endsWithAny v ["us", "is"])
      (fun n hn => (tableNoun_of_mem n hn).plural.1) h
  cases hplural : irregularPlural? w with
  | some plural =>
    obtain ⟨n, hn, rfl, rfl⟩ := exists_noun_of_irregularPlural? hplural
    rw [pluralize, hplural]
    exact (tableNoun_of_mem n hn).regular h
  | none =>
    simp only [endsWithAny, List.any_cons, List.any_nil, Bool.or_false, Bool.or_eq_true,
      endsWith_iff] at h
    obtain ⟨stem, rfl⟩ | ⟨stem, rfl⟩ := h <;>
      simp_all [pluralize, singularize, endsWithAny, endsWith, List.isSuffixOf, List.isPrefixOf]

/-- A word in `i` or `u` gets an `s`. -/
theorem pluralize_of_bare (h : endsWithAny w ["i", "u"] = true) : pluralize w = w ++ ['s'] := by
  have hplural : irregularPlural? w = none :=
    irregularPlural?_eq_none (p := fun v => endsWithAny v ["i", "u"])
      (fun n hn => (tableNoun_of_mem n hn).single.2) h
  have hsingular : irregularSingular? w = none :=
    irregularSingular?_eq_none (p := fun v => endsWithAny v ["i", "u"])
      (fun n hn => (tableNoun_of_mem n hn).plural.2) h
  simp only [endsWithAny, List.any_cons, List.any_nil, Bool.or_false, Bool.or_eq_true,
    endsWith_iff] at h
  obtain ⟨stem, rfl⟩ | ⟨stem, rfl⟩ := h <;>
    simp_all [pluralize, singularize, endsWithAny, endsWith, List.isSuffixOf, List.isPrefixOf]

theorem pluralize_pluralize_of_bare (h : endsWithAny w ["i", "u"] = true) :
    pluralize (pluralize w) = w ++ ['s', 'e', 's'] := by
  have hsingle : endsWithAny (w ++ ['s']) ["us", "is"] = true := by
    simpa [endsWithAny, endsWith, List.isSuffixOf, Bool.or_comm] using h
  rw [pluralize_of_bare h, pluralize_of_single hsingle, List.append_assoc]
  rfl

/-- Only the last word is inflected. -/
theorem mapLast_congr {f g : Word → Word} {words : List Word}
    (h : ∀ w ∈ words.getLast?, f w = g w) : mapLast f words = mapLast g words := by
  induction words using mapLast.induct with
  | case1 => rfl
  | case2 w => rw [mapLast, mapLast, h w rfl]
  | case3 w rest hne ih =>
    rw [mapLast, mapLast, ih]
    · rwa [List.getLast?_cons_of_ne_nil hne] at h
    · exact hne
    · exact hne

theorem pathWords_congr {f g : Word → Word} {segments : List Word}
    (h : ∀ segment ∈ segments.getLast?, ∀ w ∈ (segmentWords segment).getLast?, f w = g w) :
    pathWords f segments = pathWords g segments := by
  induction segments using pathWords.induct with
  | case1 => rfl
  | case2 segment => exact mapLast_congr (h segment rfl)
  | case3 segment rest hne ih =>
    rw [pathWords, pathWords, ih]
    · rwa [List.getLast?_cons_of_ne_nil hne] at h
    · exact hne
    · exact hne

/-- The words of a listing, the last of which is in the plural. -/
theorem derivedWord_listing {path : Word} (hsegments : Path.staticSegmentChars path ≠ [])
    (hopen : Path.endsInParameter path = false) :
    derivedWord "get".toList path = legal ("list".toList ++
      (pathWords pluralize (Path.staticSegmentChars path)).flatMap capitalize) := by
  have hverb : verb (Text.lower "get".toList) false = "list".toList := by decide
  have hcreate : ("list".toList == "create".toList) = false := by decide
  have hempty : (Path.staticSegmentChars path).isEmpty = false :=
    Bool.eq_false_iff.mpr fun h => hsegments (List.isEmpty_iff.mp h)
  simp only [derivedWord, hopen, hempty, Bool.or_self, hverb, hcreate, Bool.false_eq_true, if_false,
    beq_self_eq_true, if_true]

/-- The plural of a plural is the plural again, for all words but those in `i` and `u`, which get
`es` behind the `s` of their plural. So a listing of a path whose last word is a plural keeps this
word as it is, or puts `es` behind it. -/
theorem pluralize_pluralize (w : Word) :
    (pluralize (pluralize w) = pluralize w ↔ endsWithAny w ["i", "u"] = false) ∧
    (endsWithAny w ["i", "u"] = true →
      pluralize w = w ++ "s".toList ∧ pluralize (pluralize w) = w ++ "ses".toList) ∧
    ∀ (path : String) (segment : Word), Path.endsInParameter path.toList = false →
      (Path.staticSegmentChars path.toList).getLast? = some segment →
      (segmentWords segment).getLast? = some (pluralize w) →
      derivedMethodName "get" path = String.ofList (legal ("list".toList ++
        (pathWords (if endsWithAny w ["i", "u"] then (· ++ "es".toList) else id)
          (Path.staticSegmentChars path.toList)).flatMap capitalize)) := by
  refine ⟨⟨fun hkept => ?_, pluralize_pluralize_of_not⟩,
    fun h => ⟨pluralize_of_bare h, pluralize_pluralize_of_bare h⟩, ?_⟩
  · refine Bool.eq_false_iff.mpr fun h => ?_
    rw [pluralize_pluralize_of_bare h, pluralize_of_bare h] at hkept
    simp at hkept
  · intro path segment hopen hlast hplural
    have hsegments : Path.staticSegmentChars path.toList ≠ [] := by
      rintro hnone
      simp [hnone] at hlast
    have hwords : pathWords pluralize (Path.staticSegmentChars path.toList) =
        pathWords (if endsWithAny w ["i", "u"] then (· ++ "es".toList) else id)
          (Path.staticSegmentChars path.toList) := by
      refine pathWords_congr fun other hother word hword => ?_
      obtain rfl : segment = other := Option.some.inj (hlast.symm.trans hother)
      obtain rfl : pluralize w = word := Option.some.inj (hplural.symm.trans hword)
      cases h : endsWithAny w ["i", "u"] with
      | false => rw [pluralize_pluralize_of_not h]; rfl
      | true =>
        rw [pluralize_pluralize_of_bare h, pluralize_of_bare h, if_pos rfl, List.append_assoc]
        rfl
    rw [derivedMethodName, derivedWord_listing hsegments hopen, hwords]

theorem pluralize_pluralize_versions :
    pluralize "version".toList = "versions".toList ∧
      pluralize "versions".toList = "versions".toList ∧
      derivedMethodName "get" "/artifacts/\x7bid\x7d/versions" = "listArtifactVersions" := by
  obtain ⟨hkept, -, hlisting⟩ := pluralize_pluralize "version".toList
  have hplural : pluralize "version".toList = "versions".toList := by decide +kernel
  have hname := hlisting "/artifacts/\x7bid\x7d/versions" "versions".toList (by decide +kernel)
    (by decide +kernel) (by decide +kernel)
  have hsame := hkept.mpr (by decide +kernel)
  rw [hplural] at hsame
  exact ⟨hplural, hsame, hname.trans (by decide +kernel)⟩

/-- The plural of `menu` is taken for a singular when it is met in a path. -/
theorem pluralize_menus :
    pluralize "menu".toList = "menus".toList ∧
      pluralize (pluralize "menu".toList) ≠ pluralize "menu".toList ∧
      derivedMethodName "get" "/menus" = "listMenuses" := by
  decide +kernel

end ApiContract.Naming
