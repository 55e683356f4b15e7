import ApiContract.Proofs.Contract.Pointers

/-! # Pointers to nodes

The pointer made of the keys and indexes on the way to a node leads to that node. Written out,
a token has no slash, and its tildes stand before a zero or a one, so that reading the pointer
finds the same tokens again, whatever characters the keys have. Written as they are, tokens are
found again just if they are plain: without a slash and without an escape.
-/
namespace ApiContract

namespace Pointer

/-- What an escaped character is written as. -/
def escapeChar (c : Char) : List Char :=
  if c = '~' then ['~', '0'] else if c = '/' then ['~', '1'] else [c]

theorem encode_eq_flatMap (token : List Char) : encode token = token.flatMap escapeChar := by
  unfold encode Text.replaceChar
  rw [List.flatMap_assoc]
  refine congrArg token.flatMap (funext fun c => ?_)
  by_cases htilde : c = '~'
  · simp [escapeChar, htilde]
  · simp [escapeChar, htilde]

theorem slash_not_mem_encode (token : List Char) : '/' ∉ encode token := by
  rw [encode_eq_flatMap, List.mem_flatMap]
  rintro ⟨c, -, hc⟩
  unfold escapeChar at hc
  split_ifs at hc with htilde hslash
  · simp at hc
  · simp at hc
  · exact hslash (List.mem_singleton.mp hc).symm

/-- Reading the escaped slashes of a token leaves the escaped tildes. The zero behind a tilde is
neither the one of a slash nor the start of a pair. -/
theorem replacePair_slash_encode (token : List Char) :
    Text.replacePair '~' '1' ['/'] (encode token) = Text.replaceChar '~' ['~', '0'] token := by
  rw [encode_eq_flatMap, Text.replaceChar]
  induction token with
  | nil => rfl
  | cons c rest ih =>
    rw [List.flatMap_cons, List.flatMap_cons, ← ih]
    by_cases htilde : c = '~'
    · subst htilde
      exact (Text.replacePair_cons_cons_of_ne (by decide)).trans
        (congrArg _ (Text.replacePair_cons_of_ne (by decide)))
    by_cases hslash : c = '/'
    · subst hslash
      exact Text.replacePair_pair
    · simp only [escapeChar, htilde, hslash, if_false, List.singleton_append]
      exact Text.replacePair_cons_of_ne htilde

theorem replacePair_tilde_replaceChar (token : List Char) :
    Text.replacePair '~' '0' ['~'] (Text.replaceChar '~' ['~', '0'] token) = token := by
  unfold Text.replaceChar
  induction token with
  | nil => rfl
  | cons c rest ih =>
    rw [List.flatMap_cons]
    by_cases htilde : c = '~'
    · subst htilde
      exact Text.replacePair_pair.trans (congrArg _ ih)
    · simp only [htilde, if_false, List.singleton_append]
      exact (Text.replacePair_cons_of_ne htilde).trans (congrArg _ ih)

theorem decode_encode (token : List Char) : decode (encode token) = token := by
  rw [decode, replacePair_slash_encode, replacePair_tilde_replaceChar]

theorem tokens?_ofTokens {tokens : List String} (hne : tokens ≠ []) :
    tokens? (ofTokens tokens) = some tokens := by
  have hsplit : Text.splitAt '/' (Text.joinWith ['/'] (tokens.map fun t => encode t.toList)) =
      tokens.map fun t => encode t.toList := by
    refine Text.splitAt_joinWith (by simpa using hne) fun piece hpiece => ?_
    obtain ⟨token, -, rfl⟩ := List.mem_map.mp hpiece
    exact slash_not_mem_encode token.toList
  have hread : ((fun t => String.ofList (decode t)) ∘ fun t : String => encode t.toList) = id := by
    funext t
    simp [decode_encode]
  simp [tokens?, ofTokens, hsplit, hread]

theorem targetName_ofTokens (before : List String) (name : String) :
    targetName (ofTokens (before ++ [name])) = name := by
  obtain ⟨start, hstart⟩ : ∃ start, (ofTokens (before ++ [name])).toList =
      start ++ '/' :: encode name.toList := by
    rw [ofTokens, String.toList_ofList, List.map_append]
    cases before with
    | nil => exact ⟨['#'], rfl⟩
    | cons first rest =>
      refine ⟨['#', '/'] ++ Text.joinWith ['/'] ((first :: rest).map fun t => encode t.toList), ?_⟩
      rw [List.map_singleton, Text.joinWith_append_singleton (by simp)]
      simp only [List.append_assoc, List.singleton_append]
  rw [targetName, hstart, Text.afterLast_append,
    Text.afterLast_of_not_mem (slash_not_mem_encode _), decode_encode, String.ofList_toList]

section

variable {token : String} {tokens : List String}

/-- A token that a pointer may have as it is: no slash ends it, and no escape is read in it. -/
structure IsPlain (token : String) : Prop where
  whole : '/' ∉ token.toList
  unescaped : decode token.toList = token.toList

theorem isPlain_of_not_mem (hslash : '/' ∉ token.toList) (htilde : '~' ∉ token.toList) :
    IsPlain token where
  whole := hslash
  unescaped := by
    rw [decode, Text.replacePair_of_not_mem htilde, Text.replacePair_of_not_mem htilde]

theorem isPlain_toString (index : ℕ) : IsPlain (toString index) := by
  have hdigit : ∀ c ∈ (toString index).toList, c.isDigit = true := by
    rw [Nat.toString_eq_ofList_toDigits, String.toList_ofList]
    exact fun c hc => Nat.isDigit_of_mem_toDigits (by decide) (by decide) hc
  apply isPlain_of_not_mem
  · exact fun hc => absurd (hdigit _ hc) (by decide)
  · exact fun hc => absurd (hdigit _ hc) (by decide)

/-- The tokens, each behind a slash. -/
def trail (tokens : List String) : List Char := tokens.flatMap fun t => '/' :: t.toList

theorem trail_append (first rest : List String) :
    trail (first ++ rest) = trail first ++ trail rest := List.flatMap_append

/-- The text of a pointer whose tokens are written as they are. -/
def bare (tokens : List String) : String := String.ofList ('#' :: trail tokens)

theorem trail_eq_joinWith (token : String) (rest : List String) :
    trail (token :: rest) = '/' :: Text.joinWith ['/'] ((token :: rest).map String.toList) := by
  induction rest generalizing token with
  | nil => simp [trail, Text.joinWith]
  | cons next rest ih =>
    have hcons : trail (token :: next :: rest) = '/' :: (token.toList ++ trail (next :: rest)) :=
      List.flatMap_cons
    rw [hcons, ih next]
    simp [Text.joinWith]

theorem tokens?_bare (hne : tokens ≠ []) :
    tokens? (bare tokens) =
      some ((Text.splitAt '/' (Text.joinWith ['/'] (tokens.map String.toList))).map fun t =>
        String.ofList (decode t)) := by
  cases tokens with
  | nil => exact absurd rfl hne
  | cons token rest =>
    rw [tokens?, bare, String.toList_ofList, trail_eq_joinWith]
    rfl

/-- Written as they are, tokens are read back just if all of them are plain. -/
theorem tokens?_bare_iff (hne : tokens ≠ []) :
    tokens? (bare tokens) = some tokens ↔ ∀ t ∈ tokens, IsPlain t := by
  have hpieces : tokens.map String.toList ≠ [] := by simpa using hne
  have hsplit (hwhole : ∀ t ∈ tokens, '/' ∉ t.toList) :
      Text.splitAt '/' (Text.joinWith ['/'] (tokens.map String.toList)) =
        tokens.map String.toList := by
    apply Text.splitAt_joinWith hpieces
    exact List.forall_mem_map.mpr hwhole
  have hread : ((tokens.map String.toList).map fun t => String.ofList (decode t)) = tokens ↔
      ∀ t ∈ tokens, decode t.toList = t.toList := by
    have hmap := List.map_inj_left (f := fun t => String.ofList (decode t.toList)) (g := id)
      (l := tokens)
    rw [List.map_id] at hmap
    rw [List.map_map, Function.comp_def, hmap]
    simp [← String.toList_inj]
  rw [tokens?_bare hne, Option.some_inj]
  constructor
  · intro h
    have hlength := congrArg List.length h
    rw [List.length_map] at hlength
    have hwhole := Text.not_mem_of_length_splitAt hpieces
      (hlength.trans (List.length_map String.toList).symm)
    rw [List.forall_mem_map] at hwhole
    rw [hsplit hwhole, hread] at h
    exact fun t ht => ⟨hwhole t ht, h t ht⟩
  · intro h
    rw [hsplit fun t ht => (h t ht).whole, hread]
    exact fun t ht => (h t ht).unescaped

end

/-- One step down a document: to the value of a key, or to an item of a list. -/
inductive Move
  | key (name : String)
  | item (index : ℕ)

namespace Move

/-- The token of a step: the key itself, or the index in decimal. -/
def token : Move → String
  | key name => name
  | item index => toString index

def part? : Move → Tree → Option Tree
  | key name, node => node.fields?.bind fun fields => Fields.field? fields name
  | item index, node => node.items?.bind fun items => items[index]?

/-- Whether the token is read back: an index has a limited number of digits. -/
def isReadable : Move → Bool
  | key _ => true
  | item index => index < 10 ^ Text.numeralLimit

theorem isReadable_item {index : ℕ} :
    (item index).isReadable = true ↔ index < 10 ^ Text.numeralLimit := by
  rw [isReadable, decide_eq_true_iff]

end Move

/-- The node that the steps lead to. -/
def descend : List Move → Tree → Option Tree
  | [], node => some node
  | move :: rest, node => (move.part? node).bind (descend rest)

theorem isIndex_toString (index : ℕ) : isIndex (toString index) = true := by
  have hdigits : ∀ c ∈ Nat.toDigits 10 index, Text.isDigitLike c = true := fun c hc =>
    Text.isDigitLike_of_isDigit (Nat.isDigit_of_mem_toDigits (by decide) (by decide) hc)
  simp only [isIndex, Nat.toString_eq_ofList_toDigits, String.toList_ofList, Bool.and_eq_true,
    List.all_eq_true]
  exact ⟨by simp [Nat.toDigits_ne_nil], hdigits⟩

theorem index?_toString (index : ℕ) : index? (toString index) =
    if index < 10 ^ Text.numeralLimit then .ok index else .error .notNumber := by
  rw [index?, Nat.toString_eq_ofList_toDigits, String.toList_ofList, Text.numeral?_toDigits]
  split <;> rfl

/-- The token of a step leads where the step leads, unless it is an index that is too long. -/
theorem child_token {move : Move} {node next : Tree} (h : move.part? node = some next) :
    child move.token node = if move.isReadable then .ok next else .error .notNumber := by
  cases move with
  | key name =>
    obtain ⟨fields, hfields, hfield⟩ := Option.bind_eq_some_iff.mp h
    rw [Move.token, child_of_fields hfields, hfield]
    rfl
  | item index =>
    obtain ⟨items, hitems, hitem⟩ := Option.bind_eq_some_iff.mp h
    simp only [Move.token, child, hitems, isIndex_toString, if_true, index?_toString,
      Move.isReadable, decide_eq_true_eq]
    split
    · exact Outcome.need_eq_ok.mpr hitem
    · rfl

theorem follow_tokens {moves : List Move} {document node : Tree}
    (h : descend moves document = some node) :
    follow (moves.map Move.token) document =
      if moves.all Move.isReadable then .ok node else .error .notNumber := by
  induction moves generalizing document with
  | nil =>
    cases h
    rfl
  | cons move rest ih =>
    obtain ⟨next, hnext, hrest⟩ := Option.bind_eq_some_iff.mp h
    rw [List.map_cons, follow, child_token hnext, List.all_cons]
    cases move.isReadable with
    | true => exact ih hrest
    | false => rfl

/-- The pointer made of the steps to a node leads to the node. Only the index of an item behind
the first `10 ^ 4300` of a list, which no list in memory has, would not be read. The last token
of a pointer to a component is the name of the component, and whatever characters they have,
keys are the same after they are escaped and read back, one by one or in a pointer. -/
theorem resolve_ofTokens {moves : List Move} {document node : Tree} (hne : moves ≠ [])
    (h : descend moves document = some node) :
    (resolve document (ofTokens (moves.map Move.token)) = .ok node ↔
      ∀ i, .item i ∈ moves → i < 10 ^ Text.numeralLimit) ∧
    (∀ root name, targetName (ofTokens (ContractReader.componentTokens root ++ [name])) = name) ∧
    (∀ key, decode (encode key) = key) ∧
    (∀ tokens, tokens ≠ [] → tokens? (ofTokens tokens) = some tokens) := by
  refine ⟨?_, fun root name => targetName_ofTokens _ name, decode_encode,
    fun tokens => tokens?_ofTokens⟩
  have hresolve : resolve document (ofTokens (moves.map Move.token)) =
      if moves.all Move.isReadable then .ok node else .error .notNumber := by
    rw [resolve, tokens?_ofTokens (by simpa using hne)]
    exact follow_tokens h
  have hreadable : moves.all Move.isReadable = true ↔
      ∀ i, .item i ∈ moves → i < 10 ^ Text.numeralLimit := by
    rw [List.all_eq_true]
    refine ⟨fun hall i hi => Move.isReadable_item.mp (hall _ hi), fun hall move hmove => ?_⟩
    cases move with
    | key name => rfl
    | item index => exact Move.isReadable_item.mpr (hall index hmove)
  rw [hresolve, ← hreadable]
  split
  · next hall => simp [hall]
  · next hall => simp [hall]

/-- A document whose keys hold what is escaped in pointers. -/
def awkwardKeys : Tree := .map [(.text "a/b", .map [(.text "~1", .list [
  .null, .map [(.text "", .map [(.text "~0/", .text "found")])]])])]

theorem resolve_ofTokens_awkward :
    resolve awkwardKeys "#/a~1b/~01/1//~00~1" = .ok (.text "found") := by
  have hdescend : descend [.key "a/b", .key "~1", .item 1, .key "", .key "~0/"] awkwardKeys =
      some (.text "found") := by rfl
  have hpointer : ofTokens ([.key "a/b", .key "~1", .item 1, .key "", .key "~0/"].map Move.token) =
      "#/a~1b/~01/1//~00~1" := by decide +kernel
  have hresolve := (resolve_ofTokens (by simp) hdescend).1
  rw [hpointer] at hresolve
  refine hresolve.mpr fun i hi => ?_
  obtain rfl : i = 1 := by simpa using hi
  exact Nat.one_lt_pow (by decide) (by decide)

end Pointer

end ApiContract
