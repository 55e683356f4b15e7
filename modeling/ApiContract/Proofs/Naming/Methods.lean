import ApiContract.Contract.Reader
import ApiContract.Naming.Method
import ApiContract.Proofs.Naming.Capitals
import ApiContract.Proofs.Naming.Legal
import ApiContract.Proofs.Text.Cut

/-! # Names of all kinds are legal

Whatever text a name is made of, it is a word of letters, digits and underscores that no digit
starts, and no reserved word. Inflection keeps the letters and digits of a word, also where it
leaves nothing of it, so that the guard is all that a method name needs.
-/
namespace ApiContract.Naming

/-- A name that generated source may use for a type, a member or a constant. -/
structure IsLegal (name : String) : Prop where
  word : IsWord name.toList
  free : name ∉ reservedWords

theorem isReserved_toList {name : String} :
    isReserved name.toList = true ↔ name ∈ reservedWords := by
  simp only [isReserved, List.any_eq_true, beq_iff_eq, String.toList_inj]
  exact exists_eq_right

theorem isLegal_ofList {w : Word} (h : IsWord w) (hfree : isReserved w = false) :
    IsLegal (String.ofList w) where
  word := by rwa [String.toList_ofList]
  free hmem := by
    have hreserved := isReserved_toList.mpr hmem
    rw [String.toList_ofList, hfree] at hreserved
    cases hreserved

/-- What the guard makes of letters and digits is legal. -/
theorem isLegal_legal {w : Word} (h : ∀ c ∈ w, c.isAlphanum = true) :
    IsLegal (String.ofList (legal w)) :=
  isLegal_ofList (isIdentifier_legal h).toIsWord (not_isReserved_legal w)

abbrev AllAlphanum (w : Word) : Prop := ∀ c ∈ w, c.isAlphanum = true

theorem alphanum_of_all {w : Word} (h : w.all Char.isAlphanum = true) : AllAlphanum w :=
  List.all_eq_true.mp h

theorem irregularNouns_alphanum :
    ∀ n ∈ irregularNouns, AllAlphanum n.1.toList ∧ AllAlphanum n.2.toList := by
  have hall : ∀ n ∈ irregularNouns, n.1.toList.all Char.isAlphanum = true ∧
      n.2.toList.all Char.isAlphanum = true := by decide +kernel
  exact fun n hn => ⟨alphanum_of_all (hall n hn).1, alphanum_of_all (hall n hn).2⟩

theorem irregularPlural?_alphanum {w p : Word} (h : irregularPlural? w = some p) :
    AllAlphanum p := by
  obtain ⟨noun, hnoun, rfl⟩ := Option.map_eq_some_iff.mp h
  exact (irregularNouns_alphanum noun (List.mem_of_find?_eq_some hnoun)).2

theorem irregularSingular?_alphanum {w s : Word} (h : irregularSingular? w = some s) :
    AllAlphanum s := by
  obtain ⟨noun, hnoun, rfl⟩ := Option.map_eq_some_iff.mp h
  exact (irregularNouns_alphanum noun (List.mem_of_find?_eq_some hnoun)).1

section

variable {w : Word} (hw : AllAlphanum w)
include hw

theorem alphanum_dropEnd (n : ℕ) : AllAlphanum (dropEnd n w) :=
  fun c hc => hw c (List.mem_of_mem_take hc)

/-- A word with another end in place of its own. -/
theorem alphanum_dropEnd_append (n : ℕ) {ending : Word} (h : AllAlphanum ending) :
    AllAlphanum (dropEnd n w ++ ending) :=
  List.forall_mem_append.mpr ⟨alphanum_dropEnd hw n, h⟩

theorem alphanum_singularize : AllAlphanum (singularize w) := by
  unfold singularize
  split
  · next h => exact irregularSingular?_alphanum h
  · split_ifs
    · exact hw
    · exact alphanum_dropEnd_append hw 3 (alphanum_of_all rfl)
    · exact alphanum_dropEnd hw 2
    · exact alphanum_dropEnd hw 1
    · exact hw

theorem alphanum_pluralize : AllAlphanum (pluralize w) := by
  have happend : ∀ ending : Word, AllAlphanum ending → AllAlphanum (w ++ ending) :=
    fun ending h => List.forall_mem_append.mpr ⟨hw, h⟩
  unfold pluralize
  split
  · next h => exact irregularPlural?_alphanum h
  · split_ifs
    · exact hw
    · exact alphanum_dropEnd_append hw 1 (alphanum_of_all rfl)
    · exact happend _ (alphanum_of_all rfl)
    · exact happend _ (alphanum_of_all rfl)

end

/-- Words of letters and digits; one of them may be empty. -/
abbrev AllWords (words : List Word) : Prop := ∀ w ∈ words, AllAlphanum w

theorem allWords_mapLast {f : Word → Word} (hf : ∀ w, AllAlphanum w → AllAlphanum (f w))
    {words : List Word} (h : AllWords words) : AllWords (mapLast f words) := by
  induction words using mapLast.induct with
  | case1 => exact h
  | case2 w => exact List.forall_mem_singleton.mpr (hf w (h w List.mem_cons_self))
  | case3 w rest hne ih =>
    obtain ⟨hw, hrest⟩ := List.forall_mem_cons.mp h
    rw [mapLast]
    · exact List.forall_mem_cons.mpr ⟨hw, ih hrest⟩
    · exact hne

theorem allWords_segmentWords (segment : Word) : AllWords (segmentWords segment) := by
  have hsplit : AllWords (splitWords segment) := fun w hw => (isAlphanum_of_splitWords hw).2
  unfold segmentWords
  split
  · exact List.forall_mem_singleton.mpr (alphanum_of_all rfl)
  · exact hsplit

theorem allWords_pathWords {last : Word → Word}
    (hlast : ∀ w, AllAlphanum w → AllAlphanum (last w)) (segments : List Word) :
    AllWords (pathWords last segments) := by
  induction segments using pathWords.induct with
  | case1 => exact List.forall_mem_nil _
  | case2 segment => exact allWords_mapLast hlast (allWords_segmentWords segment)
  | case3 segment rest hne ih =>
    have hfirst := allWords_mapLast (fun _ => alphanum_singularize) (allWords_segmentWords segment)
    rw [pathWords]
    · exact List.forall_mem_append.mpr ⟨hfirst, ih⟩
    · exact hne

theorem alphanum_flatMap_capitalize {words : List Word} (h : AllWords words) :
    AllAlphanum (words.flatMap capitalize) := by
  intro c hc
  obtain ⟨w, hw, hc⟩ := List.mem_flatMap.mp hc
  exact isAlphanum_capitalize (h w hw) c hc

/-- The verb of an HTTP method is a word of letters. -/
theorem alpha_verb {method : String} (h : method ∈ httpMethods) (single : Bool) :
    verb (Text.lower method.toList) single ≠ [] ∧
      ∀ c ∈ verb (Text.lower method.toList) single, c.isAlpha = true := by
  have hall : ∀ method ∈ httpMethods, ∀ single, verb (Text.lower method.toList) single ≠ [] ∧
      (verb (Text.lower method.toList) single).all Char.isAlpha = true := by decide +kernel
  obtain ⟨hne, hverb⟩ := hall method h single
  exact ⟨hne, List.all_eq_true.mp hverb⟩

theorem isWord_of_alpha {w : Word} (hne : w ≠ []) (h : ∀ c ∈ w, c.isAlpha = true) : IsWord w := by
  obtain ⟨c, rest, rfl⟩ := List.exists_cons_of_ne_nil hne
  refine ⟨⟨c, rest, rfl, Or.inl (h c List.mem_cons_self)⟩, fun d hd => ?_, ?_⟩
  · simp [isPart, Char.isAlphanum, h d hd]
  · rintro ⟨⟩
    cases h '_' List.mem_cons_self

/-- The name of the root has a capital, and no reserved word has one. -/
theorem isLegal_derivedMethodName {method : String} (h : method ∈ httpMethods) (path : String) :
    IsLegal (derivedMethodName method path) := by
  obtain ⟨hne, hverb⟩ := alpha_verb h
    (Path.endsInParameter path.toList || (Path.staticSegmentChars path.toList).isEmpty)
  unfold derivedMethodName derivedWord
  extract_lets name segments single start last
  split
  · have hword : IsWord (start ++ "Root".toList) :=
      (isWord_of_alpha hne hverb).append (by simp [isPart])
    exact isLegal_ofList hword (not_isReserved (c := 'R') (by simp) rfl)
  · have hlast : ∀ w, AllAlphanum w → AllAlphanum (last w) := by
      intro w hw
      unfold last
      split_ifs
      · exact alphanum_singularize hw
      · exact alphanum_pluralize hw
      · exact hw
    refine isLegal_legal (List.forall_mem_append.mpr ⟨fun c hc => ?_, ?_⟩)
    · simp [Char.isAlphanum, hverb c hc]
    · exact alphanum_flatMap_capitalize (allWords_pathWords hlast segments)

theorem isLegal_typeName (name : String) : IsLegal (typeName name) := by
  refine ⟨isWord_typeName name, fun hmem => ?_⟩
  have hreserved := isReserved_toList.mpr hmem
  rw [typeName, String.toList_ofList, typeWord] at hreserved
  split at hreserved
  · next hpascal =>
    cases hname : name.toList with
    | nil => simp [hname, isPascal] at hpascal
    | cons c rest =>
      rw [hname, isPascal, Bool.and_eq_true] at hpascal
      have hsmall := isLower_of_isReserved hreserved c (hname ▸ List.mem_cons_self)
      exact not_isLower_of_isUpper hpascal.1 hsmall
  · rw [not_isReserved_legal] at hreserved
    cases hreserved

theorem isLegal_constantName (shown : String) : IsLegal (constantName shown) :=
  isLegal_ofList (isIdentifier_constantWord shown.toList).toIsWord (not_isReserved_legal _)

theorem isLegal_explicitMethodName (name : String) : IsLegal (explicitMethodName name) := by
  unfold explicitMethodName explicitWord
  split
  · next hcamel =>
    refine isLegal_legal ?_
    cases hname : name.toList with
    | nil => exact List.forall_mem_nil _
    | cons c rest =>
      rw [hname, isLowerCamel, Bool.and_eq_true, List.all_eq_true] at hcamel
      refine List.forall_mem_cons.mpr ⟨?_, hcamel.2⟩
      exact isAlphanum_iff.mpr (.inr (.inl hcamel.1))
  · split
    · exact isLegal_legal (w := "operation".toList) (alphanum_of_all (by decide +kernel))
    · next first others hruns =>
      have hall : ∀ w ∈ first :: others, AllAlphanum w := fun w hw =>
        (Text.of_mem_runs (hruns ▸ hw)).2
      obtain ⟨hfirst, hothers⟩ := List.forall_mem_cons.mp hall
      refine isLegal_legal (isAlphanum_camel (List.forall_mem_cons.mpr ⟨?_, hothers⟩))
      cases first with
      | nil => exact List.forall_mem_nil _
      | cons c rest =>
        obtain ⟨hc, hrest⟩ := List.forall_mem_cons.mp hfirst
        exact List.forall_mem_cons.mpr ⟨isAlphanum_toLower hc, hrest⟩

theorem isLegal_resourceName (key : String) : IsLegal (resourceName key) := by
  refine ⟨isWord_resourceName key, fun hmem => ?_⟩
  have hsmall := isLower_of_isReserved (isReserved_toList.mpr hmem) 'R' (by simp [resourceName])
  cases hsmall

/-- Every text has a legal type name, identifier, constant, method name and resource name, and
every path has a legal method name for each HTTP method: letters, digits and underscores, not
started by a digit, and no reserved word. -/
theorem isLegal_names (name path : String) :
    IsLegal (typeName name) ∧ IsLegal (identifier name) ∧ IsLegal (constantName name) ∧
      IsLegal (explicitMethodName name) ∧ IsLegal (resourceName name) ∧
      ∀ method ∈ httpMethods, IsLegal (derivedMethodName method path) :=
  ⟨isLegal_typeName name,
    isLegal_legal (isAlphanum_camel fun _ hw => (isAlphanum_of_splitWords hw).2),
    isLegal_constantName name, isLegal_explicitMethodName name, isLegal_resourceName name,
    fun _ h => isLegal_derivedMethodName h path⟩

/-- The singular of the only word of a path may be empty, and the verb is all that is left. -/
theorem isLegal_names_emptied :
    identifier "class" = "class_" ∧ typeName "2nd" = "_2nd" ∧
      derivedMethodName "delete" "/s/\x7bid\x7d" = "delete" ∧
      IsLegal "class_" ∧ IsLegal "_2nd" ∧ IsLegal "delete" := by
  have hidentifier : identifier "class" = "class_" := by decide +kernel
  have htype : typeName "2nd" = "_2nd" := by decide +kernel
  have hmethod : derivedMethodName "delete" "/s/\x7bid\x7d" = "delete" := by decide +kernel
  obtain ⟨-, hclass, -⟩ := isLegal_names "class" "/s/\x7bid\x7d"
  obtain ⟨hsecond, -, -, -, -, hmethods⟩ := isLegal_names "2nd" "/s/\x7bid\x7d"
  have hdelete := hmethods "delete" (by decide)
  rw [hidentifier] at hclass
  rw [htype] at hsecond
  rw [hmethod] at hdelete
  exact ⟨hidentifier, htype, hmethod, hclass, hsecond, hdelete⟩

end ApiContract.Naming
