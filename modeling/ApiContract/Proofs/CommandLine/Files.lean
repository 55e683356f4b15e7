import ApiContract.CommandLine.Files
import ApiContract.Proofs.Endpoint.Paths
import ApiContract.Proofs.Table

/-! # Where files are written

A path that is joined from plain names is cut into just these names. Writing a file changes
the text at the place that its path leads to, and no other text, so that files with places of
their own are all there behind the last of them.
-/
namespace ApiContract

/-- Behind entries with keys of their own, each is there, and any other key is as before. -/
theorem Table.get?_foldl_put {α β : Type} [BEq α] [LawfulBEq α] {new : List (α × β)}
    (hn : (keys new).Nodup) (t : Table α β) (k : α) :
    get? (new.foldl (fun t e => put t e.1 e.2) t) k = (get? new k).or (get? t k) := by
  induction new generalizing t with
  | nil => rfl
  | cons e rest ih =>
    obtain ⟨hfresh, hrest⟩ := List.nodup_cons.mp hn
    rw [List.foldl_cons, ih hrest]
    by_cases hk : k = e.1
    · subst hk
      rw [get?_eq_none_iff.mpr hfresh, get?_put_self]
      simp [get?]
    · rw [get?_put_ne t e.2 hk]
      simp [get?, Ne.symm hk]

namespace CommandLine

namespace FilePath

/-- A name that a path keeps when it is made plain. -/
structure IsPlain (name : String) : Prop where
  nonempty : name ≠ ""
  other : name ≠ "."
  whole : '/' ∉ name.toList

theorem components_eq (path : String) :
    components path =
      ((Path.segmentChars path.toList).filter (· ≠ ['.'])).map String.ofList := by
  simp only [components, Path.segmentChars, List.filter_filter]
  congr 2
  funext c
  simp [Bool.and_comm]

theorem isPlain_of_mem_components {path name : String} (h : name ∈ components path) :
    IsPlain name := by
  rw [components_eq] at h
  obtain ⟨c, hc, rfl⟩ := List.mem_map.mp h
  obtain ⟨hsegment, hpoint⟩ := List.mem_filter.mp hc
  obtain ⟨hne, hslash⟩ := Path.proper_segmentChars path.toList c hsegment
  refine ⟨?_, ?_, by simpa using hslash⟩
  · intro he
    exact hne (by simpa using congrArg String.toList he)
  · intro he
    have hc : c = ['.'] := by simpa using congrArg String.toList he
    simp [hc] at hpoint

theorem components_slash (path : String) : components ("/" ++ path) = components path := by
  rw [components_eq, components_eq, String.toList_append]
  exact congrArg (fun s => (s.filter (· ≠ ['.'])).map String.ofList)
    (Path.segmentChars_slash path.toList)

theorem components_intercalate {names : List String} (h : ∀ n ∈ names, IsPlain n) :
    components ("/".intercalate names) = names := by
  have hproper : Path.Proper (names.map String.toList) := by
    intro s hs
    obtain ⟨n, hn, rfl⟩ := List.mem_map.mp hs
    exact ⟨by simpa using (h n hn).nonempty, (h n hn).whole⟩
  have hpoint : ∀ s ∈ names.map String.toList, (decide (s ≠ ['.'])) = true := by
    intro s hs
    obtain ⟨n, hn, rfl⟩ := List.mem_map.mp hs
    have hother := (h n hn).other
    simpa [← String.toList_inj] using hother
  rw [← components_slash, components_eq, Grouping.toList_path, Path.segmentChars_pathOf hproper,
    List.filter_eq_self.mpr hpoint]
  simp

theorem root_cases (path : String) : root path = "" ∨ root path = "/" ∨ root path = "//" := by
  unfold root
  split <;> simp

theorem components_below {names : List String} (directory : String)
    (h : ∀ n ∈ names, IsPlain n) :
    components (below directory names) = components directory ++ names := by
  have hall : ∀ n ∈ components directory ++ names, IsPlain n :=
    List.forall_mem_append.mpr ⟨fun n hn => isPlain_of_mem_components hn, h⟩
  rw [below]
  rcases root_cases directory with hroot | hroot | hroot
  · rw [hroot, String.empty_append, components_intercalate hall]
  · rw [hroot, components_slash, components_intercalate hall]
  · have htwo : "//" = "/" ++ "/" := rfl
    rw [hroot, htwo, String.append_assoc, components_slash, components_slash,
      components_intercalate hall]

theorem below_inj {names names' : List String} (directory : String)
    (h : ∀ n ∈ names, IsPlain n) (h' : ∀ n ∈ names', IsPlain n) :
    below directory names = below directory names' ↔ names = names' := by
  refine ⟨fun he => ?_, congrArg _⟩
  have hcut := congrArg components he
  rw [components_below directory h, components_below directory h'] at hcut
  exact List.append_cancel_left hcut

theorem isRooted_iff {path : String} : isRooted path = true ↔ path.toList.head? = some '/' := by
  unfold isRooted root
  cases path.toList with
  | nil => simp
  | cons c rest =>
    by_cases hc : c = '/'
    · subst hc
      rw [List.takeWhile_cons_of_pos (by rfl)]
      split <;> simp_all
    · rw [List.takeWhile_cons_of_neg (by simpa using hc)]
      simp [hc]

theorem head?_intercalate {first : String} (rest : List String) (h : IsPlain first) :
    ("/".intercalate (first :: rest)).toList.head? ≠ some '/' := by
  have hjoin := Grouping.toList_path (first :: rest)
  rw [List.map_cons, Path.pathOf_cons, Path.rooted_cons, String.toList_append] at hjoin
  have htext := (List.cons.inj hjoin).2
  cases hfirst : first.toList with
  | nil => exact absurd (by simpa using hfirst) h.nonempty
  | cons c chars =>
    intro hhead
    rw [show ("/".intercalate (first :: rest)).toList = _ from htext, hfirst] at hhead
    have hc : c = '/' := by simpa using hhead
    exact h.whole (hfirst ▸ hc ▸ List.mem_cons_self)

theorem isRooted_below {names : List String} (directory : String) (hne : names ≠ [])
    (h : ∀ n ∈ names, IsPlain n) : isRooted (below directory names) = isRooted directory := by
  have hall : ∀ n ∈ components directory ++ names, IsPlain n :=
    List.forall_mem_append.mpr ⟨fun n hn => isPlain_of_mem_components hn, h⟩
  obtain ⟨first, rest, hcons⟩ := List.exists_cons_of_ne_nil
    (List.append_ne_nil_of_right_ne_nil (components directory) hne)
  rw [hcons] at hall
  rw [Bool.eq_iff_iff, isRooted_iff, below, hcons]
  rcases root_cases directory with hroot | hroot | hroot
  · have hno := head?_intercalate rest (hall first List.mem_cons_self)
    simpa [isRooted, hroot] using hno
  · simp [isRooted, hroot]
  · simp [isRooted, hroot]

end FilePath

namespace FileTree

open FilePath

/-- Where names lead to from a place; beyond the directory of the tree no place is known. -/
def along (place : Place) : List String → Place
  | [] => place
  | name :: rest =>
    along (if name = ".." then place.bind fun p => if p.isEmpty then none else some p.dropLast
      else place.map (· ++ [name])) rest

/-- The place of a directory; a path from the root leads out of the tree. -/
def placeOf (directory : String) : Place :=
  if isRooted directory then none else along (some []) (components directory)

theorem along_none (names : List String) : along none names = none := by
  induction names with
  | nil => rfl
  | cons name rest ih =>
    unfold along
    split <;> exact ih

theorem along_append (place : Place) (names more : List String) :
    along place (names ++ more) = along (along place names) more := by
  induction names generalizing place with
  | nil => rfl
  | cons name rest ih => exact ih _

theorem along_down (place : Place) {names : List String} (h : ".." ∉ names) :
    along place names = place.map (· ++ names) := by
  induction names generalizing place with
  | nil => simp [along]
  | cons name rest ih =>
    have hname : name ≠ ".." := (List.ne_of_not_mem_cons h).symm
    unfold along
    rw [if_neg hname, ih _ (List.not_mem_of_not_mem_cons h)]
    cases place <;> simp

/-- Going down makes directories and never a file. -/
theorem down_eq_ok {d d' : Descent} {names : List String} (h : d.down names = .ok d') :
    d'.place = along d.place names ∧ d'.tree.files = d.tree.files := by
  induction names generalizing d with
  | nil =>
    cases h
    exact ⟨rfl, rfl⟩
  | cons name rest ih =>
    unfold Descent.down at h
    unfold along
    split at h
    · next hup => simpa [hup] using ih h
    · next hdown =>
      rw [if_neg hdown]
      split at h
      · cases h
      · cases hplace : d.place with
        | none =>
          simp only [hplace, Option.map_none] at h
          simpa [hplace] using ih h
        | some place =>
          simp only [hplace, Option.map_some] at h
          split at h
          · cases h
          · split at h
            · simpa using ih h
            · simpa using ih h

theorem descend_eq_ok {tree : FileTree} {path : String} {d : Descent}
    (h : tree.descend path = .ok d) :
    d.place = (if isRooted path then none else along (some []) (components path).dropLast) ∧
      d.tree.files = tree.files := by
  unfold descend at h
  dsimp only at h
  split at h
  · cases h
  · split at h
    · next hrooted =>
      simpa [show isRooted path = false by simpa using hrooted] using down_eq_ok h
    · next hrooted =>
      split at h
      · cases h
      · simpa [show isRooted path = true by simpa using hrooted, along_none] using down_eq_ok h

/-- Writing a file below a directory puts its text at its place. -/
theorem files_write {tree after : FileTree} {directory text : String} {names : List String}
    (hplain : ∀ n ∈ names, IsPlain n) (hdown : ".." ∉ names) (hne : names ≠ [])
    (h : tree.write (below directory names) text = .ok after) :
    after.files = match placeOf directory with
      | some place => Table.put tree.files (place ++ names) text
      | none => tree.files := by
  obtain ⟨upper, name, rfl⟩ := (List.eq_nil_or_concat names).resolve_left hne
  rw [List.concat_eq_append] at *
  have hpath := components_below directory hplain
  have hrooted := isRooted_below directory hne hplain
  rw [← List.append_assoc] at hpath
  unfold write at h
  split at h
  · cases h
  · obtain ⟨d, hd, h⟩ := Outcome.bind_eq_ok.mp h
    obtain ⟨hplace, hfiles⟩ := descend_eq_ok hd
    have hupper : d.place = (placeOf directory).map (· ++ upper) := by
      rw [hplace, hrooted, hpath, List.dropLast_concat]
      unfold placeOf
      split
      · rfl
      · rw [along_append, along_down _ fun hu => hdown (List.mem_append_left _ hu)]
    simp only [hpath, List.getLastD_concat] at h
    split at h
    · cases h
    · rw [hupper] at h
      cases hout : placeOf directory with
      | none =>
        simp only [hout, Option.map_none, Outcome.pure_eq_ok] at h
        rw [← h, hfiles]
      | some place =>
        simp only [hout, Option.map_some] at h
        split at h
        · cases h
        · simp only [Outcome.pure_eq_ok] at h
          simp only [← h, hfiles, List.append_assoc]

/-- The files of a tree after others were written to places of their own below one. -/
structure Holds (before after : FileTree) (place : List String)
    (new : List (List String × String)) : Prop where
  apart : (new.map fun f => place ++ f.1).Nodup
  held : ∀ f ∈ new, Table.get? after.files (place ++ f.1) = some f.2
  others : ∀ path, (∀ f ∈ new, path ≠ place ++ f.1) →
    Table.get? after.files path = Table.get? before.files path

theorem files_writeAll {tree after : FileTree} {directory : String} {place : List String}
    {new : List (List String × String)}
    (hplain : ∀ f ∈ new, (∀ n ∈ f.1, IsPlain n) ∧ ".." ∉ f.1 ∧ f.1 ≠ [])
    (hplace : placeOf directory = some place)
    (h : tree.writeAll (new.map fun f => (below directory f.1, f.2)) = .ok after) :
    after.files = (new.map fun f => (place ++ f.1, f.2)).foldl
      (fun t e => Table.put t e.1 e.2) tree.files := by
  induction new generalizing tree with
  | nil =>
    cases h
    rfl
  | cons f rest ih =>
    unfold writeAll at h
    rw [List.map_cons, List.foldlM_cons] at h
    obtain ⟨next, hnext, h⟩ := Outcome.bind_eq_ok.mp h
    obtain ⟨hnames, hdown, hne⟩ := hplain f List.mem_cons_self
    have hfiles := files_write hnames hdown hne hnext
    simp only [hplace] at hfiles
    rw [ih (fun g hg => hplain g (List.mem_cons_of_mem _ hg)) h, hfiles]
    rfl

/-- Files with names of their own are all there when they were written, and no other file
is changed. -/
theorem holds_of_writeAll {tree after : FileTree} {directory : String} {place : List String}
    {new : List (List String × String)} (hapart : (new.map Prod.fst).Nodup)
    (hplain : ∀ f ∈ new, (∀ n ∈ f.1, IsPlain n) ∧ ".." ∉ f.1 ∧ f.1 ≠ [])
    (hplace : placeOf directory = some place)
    (h : tree.writeAll (new.map fun f => (below directory f.1, f.2)) = .ok after) :
    Holds tree after place new := by
  have hkeys : Table.keys (new.map fun f => (place ++ f.1, f.2)) =
      new.map fun f => place ++ f.1 := by simp [Table.keys]
  have hnodup : (new.map fun f => place ++ f.1).Nodup := by
    have hinj := hapart.map (f := (place ++ ·)) (List.append_right_injective place)
    rwa [List.map_map] at hinj
  have hget := Table.get?_foldl_put (hkeys ▸ hnodup) tree.files
  rw [← files_writeAll hplain hplace h] at hget
  refine ⟨hnodup, fun f hf => ?_, fun path hpath => ?_⟩
  · have hmem : (place ++ f.1, f.2) ∈ new.map fun f => (place ++ f.1, f.2) :=
      List.mem_map_of_mem (f := fun f => (place ++ f.1, f.2)) hf
    rw [hget, Table.get?_of_mem (hkeys ▸ hnodup) hmem, Option.some_or]
  · have hnot : path ∉ Table.keys (new.map fun f => (place ++ f.1, f.2)) := by
      rw [hkeys]
      intro hmem
      obtain ⟨f, hf, he⟩ := List.mem_map.mp hmem
      exact hpath f hf he.symm
    rw [hget, Table.get?_eq_none_iff.mpr hnot, Option.none_or]

/-- What writing below a directory does to a tree: it changes files at these names below the
directory only, and makes directories only on the way to the directory and to these names. -/
structure Confined (directory : String) (ways : List (List String)) (before after : FileTree) :
    Prop where
  files : ∀ path, Table.get? after.files path ≠ Table.get? before.files path →
    ∃ place, placeOf directory = some place ∧ ∃ names ∈ ways, path = place ++ names
  made : ∀ path ∈ after.made, path ∈ before.made ∨
    ∃ names ∈ ways, ∃ way, way <+: components directory ++ names ∧
      along (some []) way = some path

theorem Confined.refl (directory : String) (tree : FileTree) : Confined directory [] tree tree where
  files _ h := absurd rfl h
  made _ h := Or.inl h

theorem Confined.trans {directory : String} {ways more : List (List String)}
    {before between after : FileTree} (h : Confined directory ways before between)
    (h' : Confined directory more between after) :
    Confined directory (ways ++ more) before after where
  files path hpath := by
    by_cases hmore : Table.get? after.files path = Table.get? between.files path
    · obtain ⟨place, hplace, names, hnames, he⟩ := h.files path (hmore ▸ hpath)
      exact ⟨place, hplace, names, List.mem_append_left _ hnames, he⟩
    · obtain ⟨place, hplace, names, hnames, he⟩ := h'.files path hmore
      exact ⟨place, hplace, names, List.mem_append_right _ hnames, he⟩
  made path hpath := by
    rcases h'.made path hpath with hpath | ⟨names, hnames, hway⟩
    · rcases h.made path hpath with hpath | ⟨names, hnames, hway⟩
      · exact Or.inl hpath
      · exact Or.inr ⟨names, List.mem_append_left _ hnames, hway⟩
    · exact Or.inr ⟨names, List.mem_append_right _ hnames, hway⟩

theorem exists_way_cons {place next : Place} {name : String} {rest path : List String}
    (hnext : ∀ way, along place (name :: way) = along next way)
    (h : ∃ way, way <+: rest ∧ along next way = some path) :
    ∃ way, way <+: name :: rest ∧ along place way = some path := by
  obtain ⟨way, hway, hpath⟩ := h
  exact ⟨name :: way, List.cons_prefix_cons.mpr ⟨rfl, hway⟩, (hnext way).trans hpath⟩

/-- Going down makes directories on the way only. -/
theorem made_down {d d' : Descent} {names : List String} (h : d.down names = .ok d') :
    ∀ path ∈ d'.tree.made, path ∈ d.tree.made ∨
      ∃ way, way <+: names ∧ along d.place way = some path := by
  induction names generalizing d with
  | nil =>
    cases h
    exact fun path hpath => Or.inl hpath
  | cons name rest ih =>
    intro path hpath
    unfold Descent.down at h
    split at h
    · next hup =>
      exact (ih h path hpath).imp_right (exists_way_cons fun way => by rw [along, if_pos hup])
    · next hdown =>
      have hnext : ∀ way, along d.place (name :: way) = along (d.place.map (· ++ [name])) way :=
        fun way => by rw [along, if_neg hdown]
      split at h
      · cases h
      · cases hplace : d.place with
        | none =>
          simp only [hplace, Option.map_none] at h
          have hrest := ih h path hpath
          rw [hplace] at hrest hnext
          exact hrest.imp_right (exists_way_cons hnext)
        | some place =>
          rw [hplace] at hnext
          simp only [hplace, Option.map_some] at h
          split at h
          · cases h
          · split at h
            · exact (ih h path hpath).imp_right (exists_way_cons hnext)
            · rcases ih h path hpath with hmade | hway
              · rcases List.mem_cons.mp hmade with rfl | hmade
                · exact Or.inr ⟨[name], List.cons_prefix_cons.mpr ⟨rfl, List.nil_prefix⟩, hnext []⟩
                · exact Or.inl hmade
              · exact Or.inr (exists_way_cons hnext hway)

theorem made_descend {tree : FileTree} {path : String} {d : Descent}
    (h : tree.descend path = .ok d) : ∀ made ∈ d.tree.made, made ∈ tree.made ∨
      ∃ way, way <+: (components path).dropLast ∧ along (some []) way = some made := by
  unfold descend at h
  dsimp only at h
  split at h
  · cases h
  · split at h
    · exact made_down h
    · split at h
      · cases h
      · intro made hmade
        refine (made_down h made hmade).imp_right ?_
        rintro ⟨way, -, hway⟩
        rw [along_none] at hway
        cases hway

theorem confined_write {tree after : FileTree} {directory text : String} {names : List String}
    (hplain : ∀ n ∈ names, IsPlain n) (hdown : ".." ∉ names) (hne : names ≠ [])
    (h : tree.write (below directory names) text = .ok after) :
    Confined directory [names] tree after where
  files path hpath := by
    have hfiles := files_write hplain hdown hne h
    cases hplace : placeOf directory with
    | none =>
      rw [hplace] at hfiles
      exact absurd (congrArg (Table.get? · path) hfiles) hpath
    | some place =>
      rw [hplace] at hfiles
      refine ⟨place, rfl, names, List.mem_singleton_self names, ?_⟩
      by_contra hother
      rw [hfiles, Table.get?_put_ne tree.files text hother] at hpath
      exact hpath rfl
  made path hpath := by
    unfold write at h
    split at h
    · cases h
    · obtain ⟨d, hd, h⟩ := Outcome.bind_eq_ok.mp h
      dsimp only at h
      have hmade : after.made = d.tree.made := by
        split at h
        · cases h
        · split at h
          · rw [Outcome.pure_eq_ok.mp h]
          · split at h
            · cases h
            · rw [← Outcome.pure_eq_ok.mp h]
      refine (made_descend hd path (hmade ▸ hpath)).imp_right ?_
      rintro ⟨way, hway, halong⟩
      rw [components_below directory hplain] at hway
      exact ⟨names, List.mem_singleton_self names, way, hway.trans (List.dropLast_prefix _), halong⟩

theorem confined_writeAll {tree after : FileTree} {directory : String}
    {new : List (List String × String)}
    (hplain : ∀ f ∈ new, (∀ n ∈ f.1, IsPlain n) ∧ ".." ∉ f.1 ∧ f.1 ≠ [])
    (h : tree.writeAll (new.map fun f => (below directory f.1, f.2)) = .ok after) :
    Confined directory (new.map Prod.fst) tree after := by
  induction new generalizing tree with
  | nil =>
    cases h
    exact .refl directory _
  | cons f rest ih =>
    unfold writeAll at h
    rw [List.map_cons, List.foldlM_cons] at h
    obtain ⟨next, hnext, h⟩ := Outcome.bind_eq_ok.mp h
    obtain ⟨hnames, hdown, hne⟩ := hplain f List.mem_cons_self
    exact (confined_write hnames hdown hne hnext).trans
      (ih (fun g hg => hplain g (List.mem_cons_of_mem _ hg)) h)

end FileTree

end CommandLine

end ApiContract
