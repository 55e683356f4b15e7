import ApiContract.Contract.Reader
import ApiContract.Proofs.Doc.Markup

/-! # The list of failures in a comment

The reasons for which an operation may fail are described in escaped text, and each has its
code behind it, which is written as it stands in the contract. So only a code can end the
comment that the list stands in, and it does so however the line is wrapped.
-/
namespace ApiContract.Doc

/-- The text ends the comment that it stands in. -/
def EndsComment (text : List Char) : Prop := ['*', '/'] <:+: text

theorem noEnd_iff {text : List Char} : NoEnd text ↔ ¬EndsComment text := by
  refine ⟨NoEnd.terminator_absent, fun h => ?_⟩
  refine List.isChain_iff_forall_rel_of_append_cons_cons.mpr ?_
  rintro a b before after rfl ⟨rfl, rfl⟩
  exact h ⟨before, after, by simp⟩

/-- The end of a comment stays in one piece when a text is wrapped. -/
theorem isWhole_end : Text.IsWhole ['*', '/'] where
  nonempty := List.cons_ne_nil _ _
  solid := List.forall_mem_cons.mpr ⟨rfl, List.forall_mem_singleton.mpr rfl⟩

theorem exists_endsComment_wrapped {text : List Char} :
    (∃ line ∈ wrapped text, EndsComment line.toList) ↔ EndsComment text := by
  constructor
  · rintro ⟨line, hline, hends⟩
    by_contra hnone
    exact noEnd_iff.mp (woven_noEnd.wrapped (noEnd_iff.mpr hnone) line hline) hends
  · intro hends
    obtain ⟨line, hline, hin⟩ := isWhole_end.wrap wrapWidth hends
    refine ⟨String.ofList line, List.mem_map_of_mem hline, ?_⟩
    rwa [EndsComment, String.toList_ofList]

/-- A response that the list has an item for: one of a failure that is described. -/
def IsListed (r : Response) : Prop :=
  isFailureCode r.code = true ∧
    ∃ text, r.description.text? = some text ∧ Text.strip text.toList ≠ []

variable {r : Response} {responses : List Response} {reason : FailureReason} {lines : List String}

theorem isListed_of_failureReason? (h : failureReason? r = .ok (some reason)) :
    IsListed r ∧ reason.code = r.code := by
  unfold failureReason? at h
  split at h
  · next hcode =>
    obtain ⟨text, htext, h⟩ := Outcome.bind_eq_ok.mp h
    rw [Outcome.need_eq_ok] at htext
    rw [Outcome.pure_eq_ok] at h
    split at h
    · cases h
    · next hne =>
      cases h
      exact ⟨⟨hcode, text, htext, by simpa using hne⟩, rfl⟩
  · cases h

theorem IsListed.exists_failureReason? (h : IsListed r) :
    ∃ condition, failureReason? r = .ok (some ⟨r.code, condition⟩) := by
  obtain ⟨hcode, text, htext, hne⟩ := h
  have hempty : (Text.strip text.toList).isEmpty = false := by simpa using hne
  exact ⟨Text.strip text.toList, by
    simp [failureReason?, hcode, htext, need, hempty, bind, Except.bind, pure, Except.pure]⟩

/-- The text of an item, before it is wrapped. -/
def itemText (condition code : List Char) : List Char :=
  tagged "li" (condition ++ (" (HTTP error ".toList ++ tagged "code" code ++ [')']))

theorem noEnd_itemText {condition code : List Char} (hcondition : NoEnd condition)
    (hcode : NoEnd code) : NoEnd (itemText condition code) := by
  have hstatus : " (HTTP error ".toList = ' ' :: "(HTTP error ".toList := by decide
  have hlead : NoEnd "(HTTP error ".toList := by unfold NoEnd; decide
  have hnil := woven_noEnd.splits.nil
  have hinner := woven_noEnd.tagged "code" (by decide) hlead hcode (.singleton ')')
  have hcontent := (noEnd_append_iff (c := ' ') (by decide) (by decide) condition _).mpr
    ⟨hcondition, hinner⟩
  have hitem := woven_noEnd.tagged "li" (by decide) hnil hcontent hnil
  rw [List.nil_append, List.append_nil] at hitem
  rwa [itemText, hstatus, List.append_assoc, List.cons_append]

theorem code_infix_itemText (condition code : List Char) : code <:+: itemText condition code := by
  have htagged : ∀ (name : String) (content : List Char), content <:+: tagged name content := by
    intro name content
    rw [tagged_eq, ← List.append_assoc]
    exact List.infix_append _ _ _
  have hstatus : tagged "code" code <:+:
      condition ++ (" (HTTP error ".toList ++ tagged "code" code ++ [')']) :=
    (List.infix_append _ _ _).trans (List.suffix_append _ _).isInfix
  exact (htagged "code" code).trans (hstatus.trans (htagged "li" _))

/-- An item ends the comment exactly when its code does. -/
theorem failureItem_ends (h : failureItem reason = .ok lines) :
    (∃ line ∈ lines, EndsComment line.toList) ↔ EndsComment reason.code.toList := by
  obtain ⟨condition, hcondition, h⟩ := Outcome.bind_eq_ok.mp h
  cases h
  have hsafe : NoEnd condition := weaves_noEnd.inlineChars trivial hcondition
  refine exists_endsComment_wrapped.trans ⟨fun hends => ?_, fun hends => ?_⟩
  · by_contra hnone
    exact noEnd_iff.mp (noEnd_itemText hsafe (noEnd_iff.mpr hnone)) hends
  · exact List.IsInfix.trans hends (code_infix_itemText condition reason.code.toList)

/-- A response of a failure that is described has a code that ends the comment. -/
def HasEnd (responses : List Response) : Prop :=
  ∃ r ∈ responses, IsListed r ∧ EndsComment r.code.toList

/-- The reasons that are listed have the codes of the responses that are. -/
theorem exists_reason_iff {reasons : List (Option FailureReason)}
    (h : responses.mapM failureReason? = .ok reasons) :
    (∃ reason ∈ reasons.filterMap id, EndsComment reason.code.toList) ↔ HasEnd responses := by
  constructor
  · rintro ⟨reason, hreason, hends⟩
    obtain ⟨_, hmem, rfl⟩ := List.mem_filterMap.mp hreason
    obtain ⟨r, hr, hread⟩ := Outcome.exists_of_mem_mapM h hmem
    obtain ⟨hlisted, hcode⟩ := isListed_of_failureReason? hread
    exact ⟨r, hr, hlisted, hcode ▸ hends⟩
  · rintro ⟨r, hr, hlisted, hends⟩
    obtain ⟨condition, hread⟩ := hlisted.exists_failureReason?
    exact ⟨_, List.mem_filterMap.mpr ⟨_, Outcome.mem_of_mapM h hr hread, rfl⟩, hends⟩

theorem failureList_hasEnd (h : failureList responses = .ok lines) :
    (∃ line ∈ lines, EndsComment line.toList) ↔ HasEnd responses := by
  obtain ⟨reasons, hreasons, h⟩ := Outcome.bind_eq_ok.mp h
  rw [← exists_reason_iff hreasons]
  dsimp only at h
  split at h
  · next hempty =>
    cases h
    rw [List.isEmpty_iff.mp hempty]
    simp
  · obtain ⟨items, hitems, h⟩ := Outcome.bind_eq_ok.mp h
    cases h
    have hframe : ∀ line ∈ ["<p>", "This operation may fail for one of the following reasons:",
        "</p>", "<ul>"] ++ ["</ul>"], ¬EndsComment line.toList := by
      simp only [← noEnd_iff]
      unfold NoEnd
      decide
    constructor
    · rintro ⟨line, hline, hends⟩
      rcases List.mem_append.mp hline with hline | hline
      · rcases List.mem_append.mp hline with hline | hline
        · exact absurd hends (hframe line (List.mem_append_left _ hline))
        · obtain ⟨item, hitem, hline⟩ := List.mem_flatten.mp hline
          obtain ⟨reason, hreason, hwritten⟩ := Outcome.exists_of_mem_mapM hitems hitem
          exact ⟨reason, hreason, (failureItem_ends hwritten).mp ⟨line, hline, hends⟩⟩
      · exact absurd hends (hframe line (List.mem_append_right _ hline))
    · rintro ⟨reason, hreason, hends⟩
      obtain ⟨item, hitem, hwritten⟩ :=
        exists_right_of_forall₂ (Outcome.forall₂_of_mapM hitems) hreason
      obtain ⟨line, hline, hends⟩ := (failureItem_ends hwritten).mpr hends
      have hflat := List.mem_flatten.mpr ⟨item, hitem, hline⟩
      exact ⟨line, List.mem_append_left _ (List.mem_append_right _ hflat), hends⟩

/-- The list of failures ends the comment exactly when a response that it lists has a code that
does, whatever the descriptions are. The comment of an operation is ended by its lines exactly
when it has the list and the list ends it. -/
theorem failureList_ends (h : failureList responses = .ok lines) :
    ((∃ line ∈ lines, EndsComment line.toList) ↔ HasEnd responses) ∧
    ∀ description summary comment,
      operationComment description summary responses = .ok comment →
      ((∃ line ∈ comment, EndsComment line.toList) ↔
        listsFailures (description.orElse summary) = .ok false ∧ HasEnd responses) := by
  have hlist := failureList_hasEnd h
  refine ⟨hlist, fun description summary comment hcomment => ?_⟩
  obtain ⟨described, hdescribed, hcomment⟩ := Outcome.bind_eq_ok.mp hcomment
  obtain ⟨listed, hlisted, hcomment⟩ := Outcome.bind_eq_ok.mp hcomment
  have hsafe : ∀ line ∈ described, ¬EndsComment line.toList := fun line hline =>
    noEnd_iff.mp (noEnd_description hdescribed line hline)
  rw [hlisted]
  cases listed with
  | true =>
    cases hcomment
    simpa using hsafe
  | false =>
    obtain ⟨failures, hfailures, hcomment⟩ := Outcome.bind_eq_ok.mp hcomment
    cases hcomment
    cases h.symm.trans hfailures
    rw [← hlist]
    constructor
    · rintro ⟨line, hline, hends⟩
      rcases List.mem_append.mp hline with hline | hline
      · exact absurd hends (hsafe line hline)
      · exact ⟨rfl, line, hline, hends⟩
    · rintro ⟨-, line, hline, hends⟩
      exact ⟨line, List.mem_append_right _ hline, hends⟩

/-- A description that would end the comment, under a code that does not. -/
def hostileFailure : Response := { code := "404", description := .text "gone */ `*/`." }

theorem failureList_ends_hostile :
    ∃ lines, failureList [hostileFailure] = .ok lines ∧
      "<li>gone *&#47; <code>*&#47;</code> (HTTP error <code>404</code>)</li>" ∈ lines ∧
      ∀ line ∈ lines, ¬EndsComment line.toList := by
  obtain ⟨lines, hlines, hmem⟩ := Outcome.exists_of_map_toOption
    (o := failureList [hostileFailure])
    (f := fun lines =>
      lines.contains "<li>gone *&#47; <code>*&#47;</code> (HTTP error <code>404</code>)</li>")
    (b := true) (by decide +kernel)
  refine ⟨lines, hlines, List.contains_iff_mem.mp hmem, fun line hline hends => ?_⟩
  obtain ⟨r, hr, -, hcode⟩ := (failureList_ends hlines).1.mp ⟨line, hline, hends⟩
  rw [List.mem_singleton.mp hr] at hcode
  exact noEnd_iff.mp (by unfold NoEnd; decide) hcode

/-- A document with an operation whose failure has a code that ends comments. -/
def brokenDocument : Tree :=
  .map [
    (.text "openapi", .text "3.0.0"),
    (.text "paths", .map [
      (.text "/items", .map [
        (.text "get", .map [
          (.text "responses", .map [
            (.text "4*/", .map [(.text "description", .text "x")])])])])])]

/-- Whether the comment of the first operation has the line. -/
def commentHas (line : String) (contract : Contract) : Option Bool :=
  contract.operations.head?.bind fun op =>
    (operationComment op.description op.summary (Table.values op.responses)).toOption.map
      fun comment => comment.contains line

/-- The code of a parsed response ends the comment of its operation. -/
theorem failureList_ends_broken :
    ∃ contract op comment, Contract.ofTree brokenDocument = .ok contract ∧
      op ∈ contract.operations ∧
      operationComment op.description op.summary (Table.values op.responses) = .ok comment ∧
      "<li>x (HTTP error <code>4*/</code>)</li>" ∈ comment ∧
      EndsComment "<li>x (HTTP error <code>4*/</code>)</li>".toList := by
  obtain ⟨contract, parsed, hhas⟩ := Outcome.exists_of_map_toOption
    (o := Contract.ofTree brokenDocument)
    (f := commentHas "<li>x (HTTP error <code>4*/</code>)</li>") (b := some true)
    (by decide +kernel)
  obtain ⟨op, hop, hhas⟩ := Option.bind_eq_some_iff.mp hhas
  obtain ⟨comment, hcomment, hmem⟩ := Outcome.exists_of_map_toOption hhas
  exact ⟨contract, op, comment, parsed, List.mem_of_mem_head? hop, hcomment,
    List.contains_iff_mem.mp hmem,
    "<li>x (HTTP error <code>4".toList, "</code>)</li>".toList, by decide⟩

end ApiContract.Doc
