import ApiContract.Proofs.Contract.Targets
import ApiContract.Proofs.Outcome
import ApiContract.Proofs.Text.Digits
import ApiContract.Proofs.Text.Splits

/-! # Nodes that pointers reach

Whatever a pointer leads to in a document, the references in it are references of the
document, of which there are fewer than the document has nodes. A pointer that does not lead to
a node leads nowhere, or goes into a list by digits of which no number is read: in plain
characters, by an index that is too long.
-/
namespace ApiContract

namespace Tree

mutual

/-- All values that stand under the name of references. -/
def references : Tree → List Tree
  | scalar _ => []
  | list items => itemReferences items
  | map entries => entryReferences entries
  | loop _ body => body.references
  | back _ => []

def itemReferences : List Tree → List Tree
  | [] => []
  | t :: rest => t.references ++ itemReferences rest

def entryReferences : List (Scalar × Tree) → List Tree
  | [] => []
  | e :: rest =>
    (if e.1 == .text "$ref" then [e.2] else []) ++ e.2.references ++ entryReferences rest

end

mutual

theorem length_references : ∀ t : Tree, t.references.length < t.size
  | scalar _ => by simp [references, size]
  | list items => by
    have hitems := length_itemReferences items
    rw [references, size]
    omega
  | map entries => by
    have hentries := length_entryReferences entries
    rw [references, size]
    omega
  | loop _ body => by
    rw [references, size]
    exact length_references body
  | back _ => by simp [references, size]

theorem length_itemReferences : ∀ items : List Tree,
    (itemReferences items).length ≤ listSize items
  | [] => by simp [itemReferences]
  | t :: rest => by
    have ht := length_references t
    have hrest := length_itemReferences rest
    rw [itemReferences, listSize, List.length_append]
    omega

theorem length_entryReferences : ∀ entries : List (Scalar × Tree),
    (entryReferences entries).length ≤ entriesSize entries
  | [] => by simp [entryReferences]
  | e :: rest => by
    have he := length_references e.2
    have hrest := length_entryReferences rest
    have hown : (if e.1 == .text "$ref" then [e.2] else []).length ≤ 1 := by
      split <;> simp
    rw [entryReferences, entriesSize, List.length_append, List.length_append]
    omega

end

/-- All references have the property. -/
def AllReferences (Q : Tree → Prop) (t : Tree) : Prop := ∀ r ∈ t.references, Q r

/-- All references are texts, and the texts have the property. -/
def Referring (P : String → Prop) (t : Tree) : Prop := ∀ r ∈ t.references, ∃ s, r = .text s ∧ P s

/-- A property that references still have after a loop around them is opened. -/
def Lasting (Q : Tree → Prop) : Prop :=
  ∀ label body r, Q r → Q (Tree.fill label (.loop label body) r)

variable {Q : Tree → Prop} {label : ℕ} {body : Tree}

/-- A text has no marks to be filled. -/
theorem lasting_text (P : String → Prop) : Lasting fun r => ∃ s, r = .text s ∧ P s := by
  rintro label body _ ⟨s, rfl, h⟩
  exact ⟨s, rfl, h⟩

/-- No mark becomes a text. -/
theorem lasting_of_text (P : String → Prop) : Lasting fun r => ∀ s, r = .text s → P s := by
  intro label body r h s hs
  cases r with
  | scalar _ => exact h s hs
  | back l =>
    rw [Tree.fill] at hs
    split at hs <;> cases hs
  | loop l inner =>
    rw [Tree.fill] at hs
    split at hs <;> cases hs
  | list _ => cases hs
  | map _ => cases hs

mutual

theorem AllReferences.fill (hQ : Lasting Q) (hbody : body.AllReferences Q) :
    ∀ t : Tree, t.AllReferences Q → (Tree.fill label (.loop label body) t).AllReferences Q
  | scalar _, h => by rwa [Tree.fill]
  | list items, h => by
    rw [Tree.fill]
    exact AllReferences.fillItems hQ hbody items h
  | map entries, h => by
    rw [Tree.fill]
    exact AllReferences.fillEntries hQ hbody entries h
  | loop l inner, h => by
    rw [Tree.fill]
    split
    · exact h
    · exact AllReferences.fill hQ hbody inner h
  | back l, h => by
    rw [Tree.fill]
    split
    · exact hbody
    · exact h

theorem AllReferences.fillItems (hQ : Lasting Q) (hbody : body.AllReferences Q) :
    ∀ items : List Tree, (∀ r ∈ itemReferences items, Q r) →
    ∀ r ∈ itemReferences (Tree.fillItems label (.loop label body) items), Q r
  | [], h => by rwa [Tree.fillItems]
  | t :: rest, h => by
    rw [itemReferences, List.forall_mem_append] at h
    rw [Tree.fillItems, itemReferences, List.forall_mem_append]
    exact ⟨AllReferences.fill hQ hbody t h.1, AllReferences.fillItems hQ hbody rest h.2⟩

theorem AllReferences.fillEntries (hQ : Lasting Q) (hbody : body.AllReferences Q) :
    ∀ entries : List (Scalar × Tree), (∀ r ∈ entryReferences entries, Q r) →
    ∀ r ∈ entryReferences (Tree.fillEntries label (.loop label body) entries), Q r
  | [], h => by rwa [Tree.fillEntries]
  | e :: rest, h => by
    rw [entryReferences, List.forall_mem_append, List.forall_mem_append] at h
    rw [Tree.fillEntries, entryReferences, List.forall_mem_append, List.forall_mem_append]
    refine ⟨⟨?_, AllReferences.fill hQ hbody e.2 h.1.2⟩,
      AllReferences.fillEntries hQ hbody rest h.2⟩
    intro r hr
    split at hr
    · next hkey =>
      rw [List.mem_singleton.mp hr]
      exact hQ label body e.2 (h.1.1 e.2 (by simp [hkey]))
    · cases hr

end

section

variable (hQ : Lasting Q)
include hQ

theorem AllReferences.opened {t : Tree} (h : t.AllReferences Q) : t.opened.AllReferences Q := by
  cases t with
  | loop label body =>
    have hbody : body.AllReferences Q := h
    exact AllReferences.fill hQ hbody body hbody
  | _ => exact h

theorem AllReferences.item {t : Tree} (h : t.AllReferences Q) {items : List Tree}
    (hitems : t.items? = some items) {i : ℕ} {item : Tree} (hitem : items[i]? = some item) :
    item.AllReferences Q := by
  have hopened := h.opened hQ
  unfold items? at hitems
  split at hitems
  · next hlist =>
    cases hitems
    rw [hlist] at hopened
    have hmem := List.mem_of_getElem? hitem
    clear hitem hlist h
    induction items with
    | nil => cases hmem
    | cons first rest ih =>
      rw [AllReferences, references, itemReferences, List.forall_mem_append] at hopened
      rcases List.mem_cons.mp hmem with rfl | hmem
      · exact hopened.1
      · exact ih hopened.2 hmem
  · cases hitems

omit hQ in
theorem AllReferences.entry {entries : List (Scalar × Tree)}
    (h : ∀ r ∈ entryReferences entries, Q r) {e : Scalar × Tree} (he : e ∈ entries) :
    e.2.AllReferences Q ∧ (e.1 == .text "$ref" → Q e.2) := by
  induction entries with
  | nil => cases he
  | cons first rest ih =>
    rw [entryReferences, List.forall_mem_append, List.forall_mem_append] at h
    rcases List.mem_cons.mp he with rfl | he
    · exact ⟨h.1.2, fun hkey => h.1.1 e.2 (by simp [hkey])⟩
    · exact ih h.2 he

theorem AllReferences.field {t : Tree} (h : t.AllReferences Q) {fields : Fields}
    (hfields : t.fields? = some fields) {name : String} {value : Tree}
    (hvalue : Fields.field? fields name = some value) :
    value.AllReferences Q ∧ (name = "$ref" → Q value) := by
  have hopened := h.opened hQ
  unfold fields? at hfields
  split at hfields
  · next hmap =>
    cases hfields
    rw [hmap] at hopened
    obtain ⟨entry, hfound, rfl⟩ := Option.map_eq_some_iff.mp hvalue
    obtain ⟨hdown, href⟩ := AllReferences.entry hopened (List.mem_of_find?_eq_some hfound)
    refine ⟨hdown, ?_⟩
    rintro rfl
    have hkey := List.find?_some hfound
    exact href hkey
  · cases hfields

end

end Tree

namespace Pointer

variable {Q : Tree → Prop} (hQ : Tree.Lasting Q) {document node next : Tree}
  {token pointer : String}
include hQ

theorem allReferences_child (h : node.AllReferences Q) (hchild : child token node = .ok next) :
    next.AllReferences Q := by
  unfold child at hchild
  split at hchild
  · next items hitems =>
    split at hchild
    · obtain ⟨i, -, hchild⟩ := Outcome.bind_eq_ok.mp hchild
      exact h.item hQ hitems (Outcome.need_eq_ok.mp hchild)
    · cases hchild
  · obtain ⟨fields, hfields, hvalue⟩ := Option.bind_eq_some_iff.mp (Outcome.need_eq_ok.mp hchild)
    exact (h.field hQ hfields hvalue).1

theorem allReferences_follow {tokens : List String} (h : node.AllReferences Q)
    (hfollow : follow tokens node = .ok next) : next.AllReferences Q := by
  induction tokens generalizing node with
  | nil =>
    cases hfollow
    exact h
  | cons token rest ih =>
    obtain ⟨mid, hmid, hfollow⟩ := Outcome.bind_eq_ok.mp hfollow
    exact ih (allReferences_child hQ h hmid) hfollow

theorem allReferences_resolve (h : document.AllReferences Q)
    (hresolve : resolve document pointer = .ok next) : next.AllReferences Q := by
  obtain ⟨tokens, -, hfollow⟩ := Outcome.bind_eq_ok.mp hresolve
  exact allReferences_follow hQ h hfollow

end Pointer

namespace Text

def IsAscii (text : List Char) : Prop := ∀ c ∈ text, c.toNat < 128

theorem isDecimal_of_isAscii {c : Char} (hc : c.toNat < 128) (h : isDigitLike c = true) :
    isDecimal c = true := by
  rcases Bool.or_eq_true_iff.mp h with h | h
  · exact h
  · have hbeyond : ∀ r ∈ placelessRanges, 128 ≤ r.1 := by decide
    obtain ⟨r, hr, hlow, -⟩ := (Ranges.has_iff _ c).mp h
    have := hbeyond r hr
    omega

theorem splits_isAscii : Splits IsAscii fun c => decide (c.toNat < 128) where
  nil := fun c hc => nomatch hc
  iff hc a b := by
    have hc : _ < 128 := of_decide_eq_true hc
    simp only [IsAscii, List.forall_mem_append, List.forall_mem_cons]
    exact ⟨fun h => ⟨h.1, h.2.2⟩, fun h => ⟨h.1, hc, h.2⟩⟩

theorem isAscii_replacePair {a b : Char} {new text : List Char} (hnew : IsAscii new)
    (h : IsAscii text) : IsAscii (replacePair a b new text) := by
  refine replacePair_keeps (P := IsAscii) (fun before after hkeeps => ?_) text [] h
  simp only [IsAscii, List.forall_mem_append, List.forall_mem_cons] at hkeeps ⊢
  exact ⟨hkeeps.1, hnew, hkeeps.2.2.2⟩

theorem replacePair_of_not_mem {a b : Char} {new text : List Char} (h : a ∉ text) :
    replacePair a b new text = text := by
  fun_induction replacePair a b new text with
  | case1 x y rest hxy ih => simp_all
  | case2 x y rest hxy ih => simp_all
  | case3 text _ => rfl

end Text

namespace Pointer

variable {document node next : Tree} {token pointer : String} {tokens : List String} {e : Failure}

theorem isAscii_of_tokens? (h : Text.IsAscii pointer.toList)
    (htokens : tokens? pointer = some tokens) :
    ∀ t ∈ tokens, Text.IsAscii t.toList := by
  unfold tokens? at htokens
  split at htokens
  · next rest hchars =>
    cases htokens
    have hrest : Text.IsAscii rest := fun c hc => h c (by simp [hchars, hc])
    intro t ht
    obtain ⟨piece, hpiece, rfl⟩ := List.mem_map.mp ht
    have hascii := Text.splits_isAscii.splitAt (c := '/') (by decide) hrest piece hpiece
    have hslash : Text.IsAscii ['/'] := by simp [Text.IsAscii]
    have htilde : Text.IsAscii ['~'] := by simp [Text.IsAscii]
    rw [String.toList_ofList]
    exact Text.isAscii_replacePair htilde (Text.isAscii_replacePair hslash hascii)
  · cases htokens

theorem tokens?_of_not_mem {name token : List Char} (hname : '/' ∉ name ∧ '~' ∉ name)
    (htoken : '/' ∉ token ∧ '~' ∉ token) :
    tokens? (String.ofList ('#' :: '/' :: (name ++ '/' :: token))) =
      some [String.ofList name, String.ofList token] := by
  have hdecode : ∀ {piece : List Char}, '~' ∉ piece → decode piece = piece := by
    intro piece hpiece
    rw [decode, Text.replacePair_of_not_mem hpiece, Text.replacePair_of_not_mem hpiece]
  simp only [tokens?, String.toList_ofList, Text.splitAt_append,
    Text.splitAt_of_not_mem hname.1, Text.splitAt_of_not_mem htoken.1, List.singleton_append,
    List.map_cons, List.map_nil, hdecode hname.2, hdecode htoken.2]

/-- A token leads nowhere, or it is a number in a list that cannot be read. -/
theorem child_eq_error (h : child token node = .error e) :
    e = .missing ∨ e = .notNumber ∧ isIndex token = true ∧ Text.numeral? token.toList = none ∧
      ∃ items, node.items? = some items := by
  unfold child at h
  split at h
  · next items hitems =>
    split at h
    · next hindex =>
      rcases Outcome.bind_eq_error.mp h with h | ⟨i, -, h⟩
      · obtain ⟨hnone, rfl⟩ := Outcome.need_eq_error.mp h
        exact .inr ⟨rfl, hindex, hnone, items, hitems⟩
      · exact .inl (Outcome.need_eq_error.mp h).2.symm
    · cases h
      exact .inl rfl
  · exact .inl (Outcome.need_eq_error.mp h).2.symm

theorem follow_eq_error (h : follow tokens node = .error e) :
    ∃ before token after mid, tokens = before ++ token :: after ∧
      follow before node = .ok mid ∧ child token mid = .error e := by
  induction tokens generalizing node with
  | nil => cases h
  | cons token rest ih =>
    rcases Outcome.bind_eq_error.mp h with h | ⟨next, hnext, h⟩
    · exact ⟨[], token, rest, node, rfl, rfl, h⟩
    · obtain ⟨before, other, after, mid, rfl, hmid, hfails⟩ := ih h
      exact ⟨token :: before, other, after, mid, rfl, Outcome.bind_eq_ok.mpr ⟨next, hnext, hmid⟩,
        hfails⟩

/-- A token of digits of which no number is read: there are too many, or one of them has no place
value. -/
def IsUnread (token : String) : Prop :=
  isIndex token = true ∧
    (Text.numeralLimit < token.toList.length ∨ ∃ c ∈ token.toList, Text.isDecimal c = false)

theorem isUnread_iff :
    IsUnread token ↔ isIndex token = true ∧ Text.numeral? token.toList = none := by
  refine and_congr_right fun hindex => ?_
  have hne : token.toList ≠ [] := by simpa using (Bool.and_eq_true_iff.mp hindex).1
  rw [Text.numeral?_eq_none, or_iff_right hne]

/-- A pointer that goes into a list by digits of which no number is read. -/
def Unreadable (document : Tree) (pointer : String) : Prop :=
  ∃ before token after node items, tokens? pointer = some (before ++ token :: after) ∧
    follow before document = .ok node ∧ node.items? = some items ∧ IsUnread token

/-- A pointer that goes into a list by an index with more digits than are read as a number. -/
def Overlong (document : Tree) (pointer : String) : Prop :=
  ∃ before token after node items, tokens? pointer = some (before ++ token :: after) ∧
    follow before document = .ok node ∧ node.items? = some items ∧ isIndex token = true ∧
    Text.numeralLimit < token.toList.length

theorem Overlong.unreadable (h : Overlong document pointer) : Unreadable document pointer := by
  obtain ⟨before, token, after, node, items, htokens, hnode, hitems, hindex, hlong⟩ := h
  exact ⟨before, token, after, node, items, htokens, hnode, hitems, hindex, .inl hlong⟩

/-- In plain characters all digits have place values. -/
theorem Unreadable.overlong (ascii : Text.IsAscii pointer.toList)
    (h : Unreadable document pointer) : Overlong document pointer := by
  obtain ⟨before, token, after, node, items, htokens, hnode, hitems, hindex, hunread⟩ := h
  refine ⟨before, token, after, node, items, htokens, hnode, hitems, hindex, ?_⟩
  have htoken := isAscii_of_tokens? ascii htokens token (by simp)
  have hdigits := (Bool.and_eq_true_iff.mp hindex).2
  refine hunread.resolve_right ?_
  rintro ⟨c, hc, hvalue⟩
  rw [Text.isDecimal_of_isAscii (htoken c hc) (List.all_eq_true.mp hdigits c hc)] at hvalue
  cases hvalue

/-- A pointer leads to a node or nowhere, unless it is not read. -/
theorem resolve_eq_error (h : resolve document pointer = .error e) :
    e = .missing ∨ e = .notNumber ∧ Unreadable document pointer := by
  rcases Outcome.bind_eq_error.mp h with h | ⟨tokens, htokens, h⟩
  · exact .inl (Outcome.need_eq_error.mp h).2.symm
  rw [Outcome.need_eq_ok] at htokens
  obtain ⟨before, token, after, mid, rfl, hmid, hchild⟩ := follow_eq_error h
  rcases child_eq_error hchild with he | ⟨he, hindex, hnumeral, items, hitems⟩
  · exact .inl he
  · exact .inr ⟨he, before, token, after, mid, items, htokens, hmid, hitems,
      isUnread_iff.mpr ⟨hindex, hnumeral⟩⟩

theorem Unreadable.resolve (h : Unreadable document pointer) :
    Pointer.resolve document pointer = .error .notNumber := by
  obtain ⟨before, token, after, mid, items, htokens, hmid, hitems, hunread⟩ := h
  obtain ⟨hindex, hnumeral⟩ := isUnread_iff.mp hunread
  have hchild : child token mid = .error .notNumber := by
    simp only [child, hitems, hindex, if_true, index?, hnumeral]
    rfl
  refine Outcome.bind_eq_error.mpr (.inr ⟨_, Outcome.need_eq_ok.mpr htokens, ?_⟩)
  rw [follow_append]
  refine Outcome.bind_eq_error.mpr (.inr ⟨mid, hmid, ?_⟩)
  exact Outcome.bind_eq_error.mpr (.inl hchild)

theorem resolve_eq_notNumber_iff :
    Pointer.resolve document pointer = .error .notNumber ↔ Unreadable document pointer := by
  refine ⟨fun h => ?_, Unreadable.resolve⟩
  rcases resolve_eq_error h with hmissing | ⟨-, hunreadable⟩
  · cases hmissing
  · exact hunreadable

end Pointer

end ApiContract
