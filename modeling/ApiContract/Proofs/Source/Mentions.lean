import ApiContract.Proofs.Outcome
import ApiContract.Source.Resource

/-! # What a text names

The text of a type has the texts of the types in it, at any depth as far as they are written, and
each of them may name a class. A line may start with an annotation, whose name goes up to the first
mark behind it.
-/
namespace ApiContract.Source
open Outcome

variable {settings : Settings}

/-- The kinds of types in whose text that of the element stands. -/
inductive Encloses (dialect : Option Dialect) : TypeKind → Prop
  | list : Encloses dialect .list
  | map : Encloses dialect .map
  | async {d : Dialect} (expressed : dialect = some d) : Encloses dialect .async

/-- The types that stand in a type as it is written, at any depth. -/
inductive Mentions (dialect : Option Dialect) : TypeRef → TypeRef → Prop
  | self (type : TypeRef) : Mentions dialect type type
  | element {kind : TypeKind} {name : String} {qualified : Option String} {element : TypeRef}
      {rest : List TypeRef} {node : TypeRef} (encloses : Encloses dialect kind)
      (within : Mentions dialect element node) :
      Mentions dialect (.mk kind name qualified (element :: rest)) node

/-- The class that a type names itself, apart from the types in it. -/
def headClass? (dialect : Option Dialect) (settings : Settings) (type : TypeRef) :
    Option String :=
  match type.kind with
  | .primitive => given? type.qualified
  | .bean | .enum => some (settings.beanPackage ++ "." ++ type.name)
  | .external => some ((given? type.qualified).getD type.name)
  | .list => some "java.util.List"
  | .map => some "java.util.Map"
  | .binary => some "java.io.InputStream"
  | .rawResponse => dialect.map Dialect.rawResponseType
  | .async => dialect.map Dialect.asyncType
  | .void | .any => none

/-- A class that a type in a text needs: that of a type in it whose own text stands there. -/
inductive TypeNeeds (dialect : Option Dialect) (settings : Settings) (type : TypeRef)
    (text : String) : String → Prop
  | head {node : TypeRef} {part : Piece} {q : String} (mentioned : Mentions dialect type node)
      (piece : typePiece dialect settings node = .ok part)
      (written : part.text.toList <:+: text.toList)
      (named : headClass? dialect settings node = some q) :
      TypeNeeds dialect settings type text q

section Types

variable {dialect : Option Dialect} {kind : TypeKind} {name : String} {qualified : Option String}
  {args : List TypeRef} {piece : Piece}

theorem Mentions.eq_self {node : TypeRef} (h : Mentions dialect (.mk kind name qualified args) node)
    (hkind : ¬ Encloses dialect kind) : node = .mk kind name qualified args := by
  cases h with
  | self => rfl
  | element encloses => exact absurd encloses hkind

theorem around_eq_ok {start need : String} (h : around start need
    (elementPiece dialect settings args) = .ok piece) :
    ∃ element rest inner, args = element :: rest ∧
      typePiece dialect settings element = .ok inner ∧
      inner.text.toList <:+: piece.text.toList ∧ piece.needs = need :: inner.needs := by
  obtain ⟨inner, hinner, h⟩ := bind_eq_ok.mp h
  cases h
  cases args with
  | nil => cases hinner
  | cons element rest =>
    refine ⟨element, rest, inner, rfl, hinner, ⟨start.toList, ">".toList, ?_⟩, rfl⟩
    rw [String.toList_append, String.toList_append]

/-- A type needs its own class, and what its element needs where that is written. -/
theorem typePiece_cases
    (h : typePiece dialect settings (.mk kind name qualified args) = .ok piece) :
    ¬ Encloses dialect kind ∧
        piece.needs = (headClass? dialect settings (.mk kind name qualified args)).toList ∨
      Encloses dialect kind ∧ ∃ q element rest inner, args = element :: rest ∧
        headClass? dialect settings (.mk kind name qualified args) = some q ∧
        typePiece dialect settings element = .ok inner ∧
        inner.text.toList <:+: piece.text.toList ∧ piece.needs = q :: inner.needs := by
  have hplain : ∀ {kind : TypeKind}, kind ∉ [.list, .map, .async] → ¬ Encloses dialect kind := by
    rintro _ hkind ⟨⟩ <;> simp at hkind
  cases kind with
  | list =>
    rw [typePiece] at h
    obtain ⟨element, rest, inner, rfl, hparts⟩ := around_eq_ok h
    exact .inr ⟨.list, _, element, rest, inner, rfl, rfl, hparts⟩
  | map =>
    rw [typePiece] at h
    obtain ⟨element, rest, inner, rfl, hparts⟩ := around_eq_ok h
    exact .inr ⟨.map, _, element, rest, inner, rfl, rfl, hparts⟩
  | async =>
    cases dialect with
    | none =>
      cases h
      exact .inl ⟨by rintro ⟨⟩; contradiction, rfl⟩
    | some d =>
      rw [typePiece] at h
      obtain ⟨element, rest, inner, rfl, hparts⟩ := around_eq_ok h
      exact .inr ⟨.async rfl, _, element, rest, inner, rfl, rfl, hparts⟩
  | rawResponse =>
    refine .inl ⟨hplain (by decide), ?_⟩
    cases dialect <;> cases h <;> rfl
  | _ =>
    rw [typePiece] at h
    cases h
    exact .inl ⟨hplain (by decide), rfl⟩

/-- A text with that of a type needs a class of it just if a type in it names the class. The
induction is on the element: around it one more class is needed. -/
theorem mem_needs_typePiece {q text : String} (type : TypeRef) {piece : Piece}
    (h : typePiece dialect settings type = .ok piece)
    (within : piece.text.toList <:+: text.toList) :
    q ∈ piece.needs ↔ TypeNeeds dialect settings type text q := by
  match type with
  | .mk kind name qualified args =>
    obtain ⟨hkind, hneeds⟩ | ⟨hkind, own, element, rest, inner, hargs, hown, hinner, hwritten,
      hneeds⟩ := typePiece_cases h
    · rw [hneeds, Option.mem_toList]
      constructor
      · exact fun hq => .head (.self _) h within hq
      · rintro ⟨mentioned, -, -, named⟩
        rwa [mentioned.eq_self hkind] at named
    · rw [hneeds, List.mem_cons, mem_needs_typePiece element hinner (hwritten.trans within)]
      subst hargs
      constructor
      · rintro (rfl | ⟨mentioned, hpart, written, named⟩)
        · exact .head (.self _) h within hown
        · exact .head (.element hkind mentioned) hpart written named
      · rintro ⟨mentioned, hpart, written, named⟩
        cases mentioned with
        | self => exact Or.inl (Option.some.inj (named.symm.trans hown))
        | element _ mentioned => exact Or.inr (.head mentioned hpart written named)
termination_by sizeOf type

end Types

/-- The name of the annotation that a line starts with. -/
def annotationName? (line : String) : Option String :=
  match line.toList.dropWhile (· = ' ') with
  | '@' :: rest => some (String.ofList (rest.takeWhile Char.isAlphanum))
  | _ => none

theorem dropBlanks_append {start : String} {c : Char} {tail : List Char}
    (h : start.toList.dropWhile (· = ' ') = c :: tail) (rest : String) :
    (start ++ rest).toList.dropWhile (· = ' ') = c :: (tail ++ rest.toList) := by
  rw [String.toList_append, List.dropWhile_append, h, if_neg (by simp), List.cons_append]

/-- The name of an annotation goes up to the first mark behind it. -/
theorem annotationName?_append {start name : String} {c : Char}
    (h : start.toList.dropWhile (· = ' ') = '@' :: (name.toList ++ [c]))
    (hname : name.toList.all Char.isAlphanum) (hc : c.isAlphanum = false) (rest : String) :
    annotationName? (start ++ rest) = some name := by
  have htake : (name.toList ++ [c] ++ rest.toList).takeWhile Char.isAlphanum = name.toList := by
    rw [List.append_assoc, List.takeWhile_append_of_pos (List.all_eq_true.mp hname),
      List.singleton_append, List.takeWhile_cons_of_neg (by simp [hc]), List.append_nil]
  unfold annotationName?
  rw [dropBlanks_append h]
  simp only [htake, String.ofList_toList]

theorem annotationName?_open (simple : String) (h : simple.toList.all Char.isAlphanum)
    (rest : String) : annotationName? ("@" ++ simple ++ "(" ++ rest) = some simple := by
  refine annotationName?_append (c := '(') ?_ h (by decide) rest
  simp

/-- A text that starts with a mark, which is not that of an annotation. -/
def startsPlain (start : String) : Bool :=
  match start.toList.dropWhile (· = ' ') with
  | c :: _ => c != '@'
  | [] => false

theorem annotationName?_plain {start : String} (h : startsPlain start = true) (rest : String) :
    annotationName? (start ++ rest) = none := by
  unfold startsPlain at h
  split at h
  · next c tail hstart =>
    unfold annotationName?
    rw [dropBlanks_append hstart]
    split
    · next heq =>
      cases heq
      cases h
    · rfl
  · cases h

theorem annotationName?_starts {starts : List String}
    (h : ∀ start ∈ starts, startsPlain start = true) :
    ∀ start ∈ starts, ∀ rest, annotationName? (start ++ rest) = none :=
  fun start hstart => annotationName?_plain (h start hstart)

end ApiContract.Source
