import ApiContract.Proofs.Doc.Markup

/-! # Elements within elements

The tags of a text are nested when each element is closed by its own tag and no two elements
overlap in part. An element that a pass writes around a part of the text is nested exactly if the
tags of that part are: around one end of another element it would cross that element.
-/
namespace ApiContract.Doc

inductive Tag
  | opening (name : String)
  | closing (name : String)
  deriving DecidableEq

def Tag.name : Tag → String
  | opening name => name
  | closing name => name

@[simp] theorem Tag.name_opening (name : String) : (Tag.opening name).name = name := rfl

@[simp] theorem Tag.name_closing (name : String) : (Tag.closing name).name = name := rfl

def Tag.text : Tag → List Char
  | opening name => Doc.opening name
  | closing name => Doc.closing name

/-- The tags of an element with these tags inside. -/
def element (name : String) (inner : List Tag) : List Tag :=
  .opening name :: (inner ++ [.closing name])

/-- Rows of elements with rows of elements inside. -/
inductive Nested : List Tag → Prop
  | nil : Nested []
  | element (name : String) {inner later : List Tag} (hinner : Nested inner)
      (hlater : Nested later) : Nested (element name inner ++ later)

/-- The tags close what they open, each element before those around it, and close at last the
elements that are open before them, the innermost of which comes first. -/
def Closes : List String → List Tag → Prop
  | active, [] => active = []
  | active, .opening name :: tags => Closes (name :: active) tags
  | [], .closing _ :: _ => False
  | top :: active, .closing name :: tags => top = name ∧ Closes active tags

instance decidableCloses : ∀ active tags, Decidable (Closes active tags)
  | active, [] => inferInstanceAs (Decidable (active = []))
  | active, .opening name :: tags => decidableCloses (name :: active) tags
  | [], .closing _ :: _ => inferInstanceAs (Decidable False)
  | top :: active, .closing name :: tags =>
    let _ := decidableCloses active tags
    inferInstanceAs (Decidable (top = name ∧ Closes active tags))

/-- Nested tags leave no element open and close none that is open before them. -/
theorem Nested.closes_append_iff {tags : List Tag} (h : Nested tags) :
    ∀ active later, Closes active (tags ++ later) ↔ Closes active later := by
  induction h with
  | nil => exact fun _ _ => Iff.rfl
  | @element name inner rest hinner hrest ihinner ihrest =>
    intro active later
    have hinside := ihinner (name :: active) (.closing name :: (rest ++ later))
    simpa [Doc.element, Closes, ihrest active later] using hinside

/-- Nested tags, and behind each of them the end of an open element. -/
def Ends : List String → List Tag → Prop
  | [], tags => Nested tags
  | name :: active, tags => ∃ inner later,
      Nested inner ∧ tags = inner ++ .closing name :: later ∧ Ends active later

/-- The induction is on the tags: what an opening tag opens ends first. -/
theorem Closes.ends {active : List String} {tags : List Tag} (h : Closes active tags) :
    Ends active tags := by
  induction tags generalizing active with
  | nil =>
    obtain rfl : active = [] := h
    exact Nested.nil
  | cons tag tags ih =>
    cases tag with
    | opening name =>
      have hopened : Closes (name :: active) tags := h
      obtain ⟨inner, later, hinner, rfl, hlater⟩ := ih hopened
      cases active with
      | nil =>
        have hall : Nested (element name inner ++ later) := .element name hinner hlater
        simpa [element, Ends] using hall
      | cons top active =>
        obtain ⟨next, last, hnext, rfl, hlast⟩ := hlater
        exact ⟨element name inner ++ next, last, .element name hinner hnext,
          by simp [element], hlast⟩
    | closing name =>
      cases active with
      | nil => exact h.elim
      | cons top active =>
        obtain ⟨rfl, h⟩ := h
        exact ⟨[], tags, .nil, rfl, ih h⟩

theorem nested_iff_closes {tags : List Tag} : Nested tags ↔ Closes [] tags := by
  refine ⟨fun h => ?_, Closes.ends⟩
  simpa [Closes] using h.closes_append_iff [] []

instance (tags : List Tag) : Decidable (Nested tags) := decidable_of_iff _ nested_iff_closes.symm

section Around

variable {name : String} {tags out inner : List Tag} {contents : List (List Tag)}

/-- The end of an element that is named differently from all that is opened in it closes it
exactly if nothing else is open then. -/
theorem closes_around_iff (hinner : ∀ tag ∈ inner, tag.name ≠ name) (active : List String)
    (later : List Tag) : ∀ opened, name ∉ opened →
      (Closes (opened ++ name :: active) (inner ++ .closing name :: later) ↔
        Closes opened inner ∧ Closes active later) := by
  induction inner with
  | nil =>
    intro opened hopened
    cases opened with
    | nil => simp [Closes]
    | cons top opened =>
      have htop : top ≠ name := fun h => hopened (h ▸ List.mem_cons_self)
      simp [Closes, htop]
  | cons tag inner ih =>
    intro opened hopened
    obtain ⟨htag, hlater⟩ := List.forall_mem_cons.mp hinner
    cases tag with
    | opening other =>
      have hother : name ∉ other :: opened := fun h =>
        (List.mem_cons.mp h).elim (fun h => htag h.symm) hopened
      exact ih hlater (other :: opened) hother
    | closing other =>
      have hother : name ≠ other := fun h => htag h.symm
      cases opened with
      | nil => simp [Closes, hother]
      | cons top opened =>
        have hrest := ih hlater opened fun h => hopened (List.mem_cons_of_mem _ h)
        simp [Closes, hrest, and_assoc]

theorem closes_element_append_iff (hinner : ∀ tag ∈ inner, tag.name ≠ name)
    (active : List String) (later : List Tag) :
    Closes active (element name inner ++ later) ↔ Nested inner ∧ Closes active later := by
  have haround := closes_around_iff hinner active later [] List.not_mem_nil
  simpa [element, Closes, nested_iff_closes] using haround

theorem nested_element_iff (hinner : ∀ tag ∈ inner, tag.name ≠ name) :
    Nested (element name inner) ↔ Nested inner := by
  have hwhole := closes_element_append_iff hinner [] []
  simpa [nested_iff_closes, Closes] using hwhole

/-- What tags ask of those behind them, they ask of any tags in their place. -/
theorem closes_append_congr {p : Prop} {a b : List Tag}
    (h : ∀ active, Closes active a ↔ p ∧ Closes active b) (before : List Tag) :
    ∀ active, Closes active (before ++ a) ↔ p ∧ Closes active (before ++ b) := by
  induction before with
  | nil => exact h
  | cons tag before ih =>
    intro active
    cases tag with
    | opening name => exact ih (name :: active)
    | closing name =>
      cases active with
      | nil => simp [Closes]
      | cons top active => simp [Closes, ih active, and_left_comm]

/-- Some tags, and the element around them. -/
def enclosed (name : String) (inner : List Tag) : List Tag × List Tag := (inner, element name inner)

/-- Elements that are written around some of the tags are closed in their order exactly if what is
in each of them is nested. -/
theorem closes_rewritten_iff (h : Text.Rewrites (contents.map (enclosed name)) tags out)
    (htags : ∀ tag ∈ tags, tag.name ≠ name) :
    ∀ active, Closes active out ↔ (∀ inner ∈ contents, Nested inner) ∧ Closes active tags := by
  induction contents generalizing tags out with
  | nil =>
    cases h
    simp
  | cons inner contents ih =>
    obtain _ | @⟨_, _, rest, last, _, before, hlater⟩ := h
    obtain ⟨-, hbehind⟩ := List.forall_mem_append.mp htags
    obtain ⟨hinner, hrest⟩ := List.forall_mem_append.mp hbehind
    refine closes_append_congr (fun active => ?_) before
    rw [closes_element_append_iff hinner, ih hlater hrest, List.forall_mem_cons, ← and_assoc,
      and_congr_right_iff]
    exact fun hall => (hall.1.closes_append_iff active rest).symm

theorem nested_rewritten_iff (h : Text.Rewrites (contents.map (enclosed name)) tags out)
    (htags : ∀ tag ∈ tags, tag.name ≠ name) :
    Nested out ↔ (∀ inner ∈ contents, Nested (element name inner)) ∧ Nested tags := by
  rw [nested_iff_closes, nested_iff_closes, closes_rewritten_iff h htags]
  refine and_congr_left fun _ => forall₂_congr fun inner hinner => ?_
  obtain ⟨a, b, rfl⟩ := h.exists_of_mem (List.mem_map_of_mem hinner)
  refine (nested_element_iff fun tag htag => ?_).symm
  exact htags tag (List.mem_append_right _ (List.mem_append_left _ htag))

/-- The elements that are written are the only ones of their name, and the others stay. -/
theorem filter_rewritten (h : Text.Rewrites (contents.map (enclosed name)) tags out)
    (htags : ∀ tag ∈ tags, tag.name ≠ name) :
    out.filter (·.name = name) = (List.replicate contents.length (element name [])).flatten ∧
      ∀ other, other ≠ name → out.filter (·.name = other) = tags.filter (·.name = other) := by
  have hnone : ∀ {tags : List Tag}, (∀ tag ∈ tags, tag.name ≠ name) →
      tags.filter (·.name = name) = [] := by
    intro tags htags
    simpa using htags
  induction contents generalizing tags out with
  | nil =>
    cases h
    exact ⟨hnone htags, fun _ _ => rfl⟩
  | cons inner contents ih =>
    obtain _ | @⟨_, _, rest, last, _, before, hlater⟩ := h
    obtain ⟨hbefore, hbehind⟩ := List.forall_mem_append.mp htags
    obtain ⟨hinner, hrest⟩ := List.forall_mem_append.mp hbehind
    obtain ⟨hown, hother⟩ := ih hlater hrest
    constructor
    · simp [element, List.filter_append, hnone hbefore, hnone hinner, hown, List.replicate_succ]
    · intro other hne
      have hname : name ≠ other := fun h => hne h.symm
      simp [element, List.filter_append, hother other hne, hname]

end Around

/-- The tag that the text begins with. -/
def tagAt? (text : List Char) : Option Tag :=
  (tagNames.flatMap fun name => [Tag.opening name, Tag.closing name]).find?
    fun tag => tag.text.isPrefixOf text

/-- The tags in the text, from the left. -/
def tagsOf : List Char → List Tag
  | [] => []
  | c :: rest => (tagAt? (c :: rest)).toList ++ tagsOf rest

section Texts

variable {a b content : List Char} {name : String}

/-- A tag begins with a bracket. -/
theorem tagsOf_append_of_not_mem (ha : '<' ∉ a) (b : List Char) :
    tagsOf (a ++ b) = tagsOf b := by
  induction a with
  | nil => rfl
  | cons c a ih =>
    obtain ⟨hc, hrest⟩ := not_or.mp fun h => ha (List.mem_cons.mpr h)
    have hnone : tagAt? (c :: (a ++ b)) = none := by
      simp [tagAt?, tagNames, Tag.text, Doc.opening, Doc.closing, hc]
    rw [List.cons_append, tagsOf, hnone, Option.toList_none, List.nil_append, ih hrest]

theorem tagsOf_eq_nil (ha : '<' ∉ a) : tagsOf a = [] := by
  simpa [tagsOf] using tagsOf_append_of_not_mem ha []

theorem tagsOf_tag_append (tag : Tag) (hname : tag.name ∈ tagNames) (b : List Char) :
    tagsOf (tag.text ++ b) = tag :: tagsOf b := by
  have hfound : tagAt? (tag.text ++ b) = some tag := by
    cases tag <;>
      simp only [tagNames, Tag.name, List.mem_cons, List.not_mem_nil, or_false] at hname <;>
      rcases hname with rfl | rfl | rfl | rfl | rfl | rfl | rfl <;> rfl
  have hinside : ∀ name ∈ tagNames, '<' ∉ (Tag.opening name).text.tail ∧
      '<' ∉ (Tag.closing name).text.tail := by decide
  cases tag with
  | opening name =>
    rw [← tagsOf_append_of_not_mem (hinside name hname).1 b]
    exact congrArg (fun found => Option.toList found ++ _) hfound
  | closing name =>
    rw [← tagsOf_append_of_not_mem (hinside name hname).2 b]
    exact congrArg (fun found => Option.toList found ++ _) hfound

/-- No tag begins in marked-up text and ends behind it. -/
theorem IsMarkedUp.tagsOf_append (ha : IsMarkedUp a) (b : List Char) :
    tagsOf (a ++ b) = tagsOf a ++ tagsOf b := by
  obtain ⟨pieces, rfl⟩ := ha
  induction pieces with
  | nil => rfl
  | cons piece pieces ih =>
    rw [List.flatMap_cons, List.append_assoc]
    have htagless : '<' ∉ piece.text → tagsOf (piece.text ++ (pieces.flatMap Piece.text ++ b)) =
        tagsOf (piece.text ++ pieces.flatMap Piece.text) ++ tagsOf b := fun h => by
      rw [tagsOf_append_of_not_mem h, tagsOf_append_of_not_mem h, ih]
    cases piece with
    | plain c hc =>
      refine htagless fun hmem => ?_
      rw [← List.mem_singleton.mp hmem] at hc
      cases hc
    | opening name hname =>
      have htag := tagsOf_tag_append (.opening name) hname
      exact (htag _).trans ((congrArg _ ih).trans (congrArg (· ++ _) (htag _)).symm)
    | closing name hname =>
      have htag := tagsOf_tag_append (.closing name) hname
      exact (htag _).trans ((congrArg _ ih).trans (congrArg (· ++ _) (htag _)).symm)
    | entity text htext =>
      have hentities : ∀ text ∈ entities, '<' ∉ text.toList := by decide
      exact htagless (hentities text htext)

theorem tagsOf_tagged_append (hname : name ∈ tagNames) (hcontent : IsMarkedUp content)
    (b : List Char) :
    tagsOf (tagged name content ++ b) = element name (tagsOf content) ++ tagsOf b := by
  have hopen := tagsOf_tag_append (.opening name) hname (content ++ (closing name ++ b))
  have hclose := tagsOf_tag_append (.closing name) hname b
  simp only [Tag.text] at hopen hclose
  rw [hcontent.tagsOf_append, hclose] at hopen
  simpa [tagged_eq, element] using hopen

theorem tagsOf_escape (text : List Char) : tagsOf (escape text) = [] :=
  tagsOf_eq_nil (not_mem_escape (by decide) fun _ => rfl)

end Texts

end ApiContract.Doc
