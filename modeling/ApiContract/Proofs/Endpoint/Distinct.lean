import ApiContract.Proofs.Endpoint.Groups

/-! # Methods that are told apart by name

The endpoints of a resource are gone through in order. One whose own name is new among those
before it keeps it. Any other gets the first of its candidates that no endpoint of the resource
gives itself and that was not given to one before it. So names are given to one endpoint only,
also where a candidate is the own name of an endpoint that comes later. A resource in which an
endpoint has no such candidate is refused.
-/
namespace ApiContract.Grouping

def methodNames (endpoints : List Endpoint) : List String := endpoints.map Endpoint.methodName

/-- The first of the endpoints whose own name this is. -/
def owner? (endpoints : List Endpoint) (name : String) : Option Endpoint :=
  endpoints.find? fun e => e.methodName == name

/-- Names for endpoints in order, one of their own names for the first that has it, else the
first candidate that is neither an own name of the resource nor given to one before. -/
structure Named (own : List String) (endpoints named : List Endpoint) : Prop where
  length : named.length = endpoints.length
  apart : (methodNames named).Nodup
  first : ∀ i e, endpoints[i]? = some e → owner? (endpoints.take i) e.methodName = none →
    named[i]? = some e
  later : ∀ i e owner, endpoints[i]? = some e →
    owner? (endpoints.take i) e.methodName = some owner →
    ∃ candidates name, discriminators e.operation owner.operation e.methodName = .ok candidates ∧
      candidates.find? (fun c => c ∉ own ∧ c ∉ methodNames (named.take i)) = some name ∧
      named[i]? = some { e with methodName := name }

variable {own : List String} {endpoints named : List Endpoint} {e owner : Endpoint}

theorem owner?_eq_none {name : String} :
    owner? endpoints name = none ↔ name ∉ methodNames endpoints := by
  simp [owner?, methodNames, List.find?_eq_none]

theorem owner?_concat (name : String) :
    owner? (endpoints ++ [e]) name =
      (owner? endpoints name).or (if e.methodName = name then some e else none) := by
  by_cases h : e.methodName = name <;> simp [owner?, List.find?_append, h]

/-- An endpoint with an own name that no other has is the first with it. -/
theorem owner?_take_of_unique {i : ℕ} (he : endpoints[i]? = some e)
    (unique : (methodNames endpoints).count e.methodName = 1) :
    owner? (endpoints.take i) e.methodName = none := by
  rw [owner?_eq_none]
  intro hmem
  have hsplit : methodNames endpoints =
      methodNames (endpoints.take i) ++ e.methodName :: methodNames (endpoints.drop (i + 1)) := by
    obtain ⟨hi, rfl⟩ := List.getElem?_eq_some_iff.mp he
    rw [methodNames, methodNames, methodNames, ← List.map_cons, ← List.drop_eq_getElem_cons hi,
      ← List.map_append, List.take_append_drop]
  have hbefore := List.count_pos_iff.mpr hmem
  rw [hsplit, List.count_append, List.count_cons_self] at unique
  omega

theorem getElem?_concat_eq_some {α : Type} {items : List α} {a b : α} {i : ℕ}
    (h : (items ++ [b])[i]? = some a) : items[i]? = some a ∨ i = items.length ∧ a = b := by
  rcases Nat.lt_trichotomy i items.length with hi | rfl | hi
  · exact Or.inl (List.getElem?_append_left hi ▸ h)
  · rw [List.getElem?_concat_length] at h
    exact Or.inr ⟨rfl, (Option.some.inj h).symm⟩
  · rw [List.getElem?_eq_none (by simp; omega)] at h
    cases h

theorem Named.concat (h : Named own endpoints named) {name : String}
    (fresh : name ∉ methodNames named)
    (first : owner? endpoints e.methodName = none → name = e.methodName)
    (later : ∀ owner, owner? endpoints e.methodName = some owner → ∃ candidates,
      discriminators e.operation owner.operation e.methodName = .ok candidates ∧
        candidates.find? (fun c => c ∉ own ∧ c ∉ methodNames named) = some name) :
    Named own (endpoints ++ [e]) (named ++ [{ e with methodName := name }]) := by
  have hlast : (named ++ [{ e with methodName := name }])[endpoints.length]? =
      some { e with methodName := name } := by
    rw [← h.length, List.getElem?_concat_length]
  have hold : ∀ i f, endpoints[i]? = some f → i < named.length := by
    intro i f hf
    rw [h.length]
    exact (List.getElem?_eq_some_iff.mp hf).1
  refine ⟨by simp [h.length], ?_, ?_, ?_⟩
  · rw [methodNames, List.map_append]
    exact h.apart.append (List.nodup_singleton name) (by simpa [methodNames] using fresh)
  · intro i f hf howner
    rcases getElem?_concat_eq_some hf with hf | ⟨rfl, rfl⟩
    · have hi := hold i f hf
      rw [List.take_append_of_le_length (h.length ▸ Nat.le_of_lt hi)] at howner
      rw [List.getElem?_append_left hi]
      exact h.first i f hf howner
    · rw [List.take_left] at howner
      rw [hlast, first howner]
  · intro i f owner hf howner
    rcases getElem?_concat_eq_some hf with hf | ⟨rfl, rfl⟩
    · have hi := hold i f hf
      rw [List.take_append_of_le_length (h.length ▸ Nat.le_of_lt hi)] at howner
      rw [List.take_append_of_le_length (Nat.le_of_lt hi), List.getElem?_append_left hi]
      exact h.later i f owner hf howner
    · rw [List.take_left] at howner
      obtain ⟨candidates, hoffered, hchosen⟩ := later owner howner
      refine ⟨candidates, name, hoffered, ?_, hlast⟩
      rwa [← h.length, List.take_left]

/-- What is known when some endpoints have their names: the names in use are the own names of
the resource and those that were given, and an own name belongs to the first that has it. -/
structure Naming (own : List String) (endpoints : List Endpoint) (state : NamingState) : Prop where
  taken : ∀ c, c ∈ state.taken ↔ c ∈ own ∨ c ∈ methodNames state.named
  owners : ∀ name ∈ own,
    Table.get? state.owners name = (owner? endpoints name).map Endpoint.operation
  kept : ∀ name ∈ methodNames state.named, name ∈ own → name ∈ methodNames endpoints
  named : Named own endpoints state.named

theorem naming_start (own : List String) : Naming own [] { taken := own } where
  taken := by simp [methodNames]
  owners := fun _ _ => rfl
  kept := by simp [methodNames]
  named := ⟨rfl, List.nodup_nil, by simp, by simp⟩

variable {resource : Resource} {state state' : NamingState}

/-- The names in use, as a test on candidates. -/
theorem Naming.find?_eq (h : Naming own endpoints state) (candidates : List String) :
    candidates.find? (fun c => c ∉ state.taken) =
      candidates.find? fun c => c ∉ own ∧ c ∉ methodNames state.named := by
  congr 1
  funext c
  simp [h.taken c]

theorem Naming.first (h : Naming own endpoints state) (member : e.methodName ∈ own)
    (fresh : owner? endpoints e.methodName = none) :
    Naming own (endpoints ++ [e])
      { state with owners := Table.put state.owners e.methodName e.operation,
                   named := state.named ++ [e] } := by
  have hnew := owner?_eq_none.mp fresh
  refine ⟨fun c => ?_, fun name hname => ?_, fun name hname howned => ?_, ?_⟩
  · simp only [h.taken c, methodNames, List.map_append, List.map_singleton, List.mem_append,
      List.mem_singleton]
    constructor
    · rintro (hc | hc)
      · exact Or.inl hc
      · exact Or.inr (Or.inl hc)
    · rintro (hc | hc | rfl)
      · exact Or.inl hc
      · exact Or.inr hc
      · exact Or.inl member
  · rw [owner?_concat]
    by_cases he : e.methodName = name
    · subst he
      simp [fresh, Table.get?_put_self]
    · rw [Table.get?_put_ne _ _ (Ne.symm he), h.owners name hname]
      simp [he]
  · rw [methodNames, List.map_append] at hname ⊢
    refine (List.mem_append.mp hname).elim (fun hold => ?_) (List.mem_append_right _)
    exact List.mem_append_left _ (h.kept name hold howned)
  · refine h.named.concat (fun hgiven => hnew (h.kept _ hgiven member)) (fun _ => rfl) ?_
    intro owner howner
    cases fresh.symm.trans howner

theorem Naming.later (h : Naming own endpoints state)
    (owned : owner? endpoints e.methodName = some owner) {candidates : List String}
    (offered : discriminators e.operation owner.operation e.methodName = .ok candidates)
    {name : String} (chosen : candidates.find? (fun c => c ∉ state.taken) = some name) :
    Naming own (endpoints ++ [e])
      { taken := name :: state.taken, owners := Table.put state.owners name e.operation,
        named := state.named ++ [{ e with methodName := name }] } := by
  have hfree : name ∉ own ∧ name ∉ methodNames state.named := by
    have hnot : name ∉ state.taken := by simpa using List.find?_some chosen
    rwa [h.taken, not_or] at hnot
  refine ⟨fun c => ?_, fun other hother => ?_, fun other hname howned => ?_, ?_⟩
  · simp only [List.mem_cons, h.taken c, methodNames, List.map_append, List.map_singleton,
      List.mem_append]
    tauto
  · have hne : other ≠ name := fun heq => hfree.1 (heq ▸ hother)
    rw [Table.get?_put_ne _ _ hne, h.owners other hother, owner?_concat]
    by_cases he : e.methodName = other
    · subst he
      simp [owned]
    · simp [he]
  · rw [methodNames, List.map_append] at hname ⊢
    rcases List.mem_append.mp hname with hold | hnew
    · exact List.mem_append_left _ (h.kept other hold howned)
    · obtain rfl : other = name := by simpa using hnew
      exact absurd howned hfree.1
  · refine h.named.concat hfree.2 (fun hnone => ?_) fun owner' howner' => ?_
    · cases hnone.symm.trans owned
    · cases owned.symm.trans howner'
      exact ⟨candidates, offered, h.find?_eq candidates ▸ chosen⟩

theorem naming_nameEndpoint (h : Naming own endpoints state) (member : e.methodName ∈ own)
    (hname : nameEndpoint resource state e = .ok state') :
    Naming own (endpoints ++ [e]) state' := by
  unfold nameEndpoint at hname
  rw [h.owners _ member] at hname
  cases howner : owner? endpoints e.methodName with
  | none =>
    rw [howner] at hname
    cases hname
    exact h.first member howner
  | some owner =>
    rw [howner] at hname
    obtain ⟨candidates, hoffered, hname⟩ := Outcome.bind_eq_ok.mp hname
    split at hname
    · next name hchosen =>
      cases hname
      exact h.later howner hoffered hchosen
    · cases hname

theorem naming_of_foldlM {rest : List Endpoint} (h : Naming own endpoints state)
    (members : ∀ e ∈ rest, e.methodName ∈ own)
    (hnames : rest.foldlM (nameEndpoint resource) state = .ok state') :
    Naming own (endpoints ++ rest) state' := by
  induction rest generalizing endpoints state with
  | nil =>
    cases hnames
    rwa [List.append_nil]
  | cons e rest ih =>
    rw [List.foldlM_cons] at hnames
    obtain ⟨next, hnext, hnames⟩ := Outcome.bind_eq_ok.mp hnames
    have hstep := naming_nameEndpoint h (members e List.mem_cons_self) hnext
    simpa using ih hstep (fun f hf => members f (List.mem_cons_of_mem _ hf)) hnames

/-- An endpoint whose own name was used before it and whose candidates are all in use: as own
names of the resource, or as names given to those before it. -/
structure Stuck (resource : Resource) (before : List Endpoint) (e owner : Endpoint)
    (named : List Endpoint) (candidates : List String) : Prop where
  place : ∃ after, resource.endpoints = before ++ e :: after
  settled : Named (methodNames resource.endpoints) before named
  owned : owner? before e.methodName = some owner
  offered : discriminators e.operation owner.operation e.methodName = .ok candidates
  taken : ∀ c ∈ candidates, c ∈ methodNames resource.endpoints ∨ c ∈ methodNames named

/-- The clash that a resource is refused for. -/
def clashOver (resource : Resource) (name : String) : NameClash :=
  { method := name, resource := resource.name, labels := labelsOf resource.endpoints name }

/-- The candidates of an operation: its name with the static segments that the path of the first
operation does not have, with its last placeholder, with all of several placeholders, or with all of
its parameters. -/
inductive Offers (op first : Operation) (base : String) : String → Prop
  | byPath (differs : ∃ s ∈ Path.staticSegments op.path, s ∉ Path.staticSegments first.path) :
      Offers op first base (base ++ joinTypeNames ""
        ((Path.staticSegments op.path).filter fun s => s ∉ Path.staticSegments first.path))
  | byLast {p : String} (last : (Path.placeholders op.path).getLast? = some p) :
      Offers op first base (base ++ "By" ++ Naming.typeName p)
  | byAll (several : 1 < (Path.placeholders op.path).length) :
      Offers op first base (base ++ "By" ++ joinTypeNames "And" (Path.placeholders op.path))
  | withAll {names : List String}
      (read : op.parameters.map (fun p => p.name.text?) = names.map some)
      (nonempty : names ≠ []) :
      Offers op first base (base ++ "With" ++ joinTypeNames "And" names)

theorem parameterTypeNames_eq_ok {op : Operation} {types : List String}
    (h : parameterTypeNames op = .ok types) : ∃ names : List String,
      op.parameters.map (fun p => p.name.text?) = names.map some ∧
        types = names.map Naming.typeName := by
  have hall := Outcome.forall₂_of_mapM h
  clear h
  generalize op.parameters = parameters at hall
  induction hall with
  | nil => exact ⟨[], rfl, rfl⟩
  | cons hp _ ih =>
    obtain ⟨name, hname, rfl⟩ := Outcome.map_eq_ok.mp hp
    obtain ⟨names, hnames, rfl⟩ := ih
    exact ⟨name :: names, by simp [Outcome.need_eq_ok.mp hname, hnames], rfl⟩

theorem mem_discriminators_iff {op first : Operation} {base : String} {candidates : List String}
    (h : discriminators op first base = .ok candidates) {c : String} :
    c ∈ candidates ↔ Offers op first base c := by
  obtain ⟨types, htypes, h⟩ := Outcome.bind_eq_ok.mp h
  obtain ⟨names, hnames, rfl⟩ := parameterTypeNames_eq_ok htypes
  cases h
  simp only [List.mem_append, or_assoc]
  constructor
  · rintro (hc | hc | hc | hc)
    · split at hc
      · cases hc
      · next hne =>
        cases List.mem_singleton.mp hc
        exact .byPath (by simpa using hne)
    · split at hc
      · next hlast =>
        cases List.mem_singleton.mp hc
        exact .byLast hlast
      · cases hc
    · split at hc
      · next hseveral =>
        cases List.mem_singleton.mp hc
        exact .byAll hseveral
      · cases hc
    · split at hc
      · cases hc
      · next hne =>
        cases List.mem_singleton.mp hc
        exact .withAll hnames (by simpa using hne)
  · rintro (hdiffers | hlast | hseveral | ⟨hread, hnonempty⟩)
    · exact .inl (by simpa using hdiffers)
    · exact .inr (.inl (by simp [hlast]))
    · exact .inr (.inr (.inl (by simp [hseveral])))
    · rw [hnames] at hread
      obtain rfl := List.map_injective_iff.mpr (fun _ _ => Option.some.inj) hread
      exact .inr (.inr (.inr (by simp [hnonempty, joinTypeNames])))

/-- An operation has no candidate if its path has no segment of its own and no placeholder and it
has no parameter. -/
theorem discriminators_eq_nil_iff {op first : Operation} {base : String} {candidates : List String}
    (h : discriminators op first base = .ok candidates) :
    candidates = [] ↔
      (∀ s ∈ Path.staticSegments op.path, s ∈ Path.staticSegments first.path) ∧
        Path.placeholders op.path = [] ∧ op.parameters = [] := by
  obtain ⟨types, htypes, -⟩ := Outcome.bind_eq_ok.mp h
  obtain ⟨names, hnames, -⟩ := parameterTypeNames_eq_ok htypes
  rw [List.eq_nil_iff_forall_not_mem]
  simp only [mem_discriminators_iff h]
  constructor
  · intro hnone
    refine ⟨fun s hs => ?_, ?_, ?_⟩
    · by_contra hother
      exact hnone _ (.byPath ⟨s, hs, hother⟩)
    · by_contra hsome
      exact hnone _ (.byLast (List.getLast?_eq_some_getLast hsome))
    · by_contra hsome
      refine hnone _ (.withAll hnames fun hempty => hsome ?_)
      simpa [hempty] using hnames
  · rintro ⟨hsegments, hplaces, hparameters⟩ c
      (⟨s, hs, hother⟩ | hlast | hseveral | ⟨hread, hnonempty⟩)
    · exact hother (hsegments s hs)
    · simp [hplaces] at hlast
    · simp [hplaces] at hseveral
    · exact hnonempty (by simpa [hparameters] using hread.symm)

theorem discriminators_eq_error {op first : Operation} {base : String} {failure : Failure}
    (h : discriminators op first base = .error failure) :
    failure = .illTyped ∧ ∃ p ∈ op.parameters, p.name.text? = none := by
  rcases Outcome.bind_eq_error.mp h with h | ⟨names, -, h⟩
  · obtain ⟨p, hp, hname⟩ := Outcome.exists_of_mapM_eq_error h
    obtain ⟨hnone, rfl⟩ := Outcome.need_eq_error.mp (Outcome.map_eq_error.mp hname)
    exact ⟨rfl, p, hp, hnone⟩
  · cases h

theorem nameEndpoint_eq_error {failure : Failure} (h : Naming own endpoints state)
    (member : e.methodName ∈ own) (hname : nameEndpoint resource state e = .error failure) :
    ∃ owner, owner? endpoints e.methodName = some owner ∧
      ((∃ candidates, discriminators e.operation owner.operation e.methodName = .ok candidates ∧
          (∀ c ∈ candidates, c ∈ own ∨ c ∈ methodNames state.named) ∧
          failure = .naming (clashOver resource e.methodName) e.operation.label) ∨
        (failure = .illTyped ∧ ∃ p ∈ e.operation.parameters, p.name.text? = none)) := by
  unfold nameEndpoint at hname
  rw [h.owners _ member] at hname
  cases howner : owner? endpoints e.methodName with
  | none =>
    rw [howner] at hname
    cases hname
  | some owner =>
    rw [howner] at hname
    refine ⟨owner, rfl, ?_⟩
    rcases Outcome.bind_eq_error.mp hname with hname | ⟨candidates, hoffered, hname⟩
    · exact Or.inr (discriminators_eq_error hname)
    · split at hname
      · cases hname
      · next hnone =>
        cases hname
        refine Or.inl ⟨candidates, hoffered, fun c hc => ?_, rfl⟩
        rw [← h.taken]
        simpa using List.find?_eq_none.mp hnone c hc

/-- Every resource either gets names of which none comes up twice, or is refused. The first
endpoint with an own name keeps it, so does one whose own name no other has, and any other has
the first of its candidates that is not in use. It is refused at an endpoint whose own name was
used before and whose candidates are all in use, with a message that lists the labels of all
operations with this own name. The only other failure is that of a parameter of such an endpoint
whose name is no text, so that it has no candidates. -/
theorem distinguish_cases (resource : Resource) :
    match distinguish resource with
    | .ok result => ∃ named, result = { resource with endpoints := named } ∧
      Named (methodNames resource.endpoints) resource.endpoints named ∧
      ∀ (i : ℕ) (e : Endpoint), resource.endpoints[i]? = some e →
        (methodNames resource.endpoints).count e.methodName = 1 → named[i]? = some e
    | .error (.naming clash location) =>
      ∃ (before : List Endpoint) (e owner : Endpoint) (named : List Endpoint)
        (candidates : List String),
        Stuck resource before e owner named candidates ∧ location = e.operation.label ∧
        clash.message = "method name " ++ Text.quoted e.methodName ++ " in " ++ resource.name ++
          " is shared by " ++ ", ".intercalate ((resource.endpoints.filter fun f =>
            f.methodName == e.methodName).map fun f => f.operation.label) ++
          " and no discriminator is free"
    | .error failure =>
      failure = .illTyped ∧ ∃ (before : List Endpoint) (e : Endpoint) (after : List Endpoint),
        resource.endpoints = before ++ e :: after ∧ e.methodName ∈ methodNames before ∧
        ∃ p ∈ e.operation.parameters, p.name.text? = none := by
  have hstart := naming_start (methodNames resource.endpoints)
  cases hnames : resource.endpoints.foldlM (nameEndpoint resource)
      { taken := methodNames resource.endpoints } with
  | ok final =>
    have hresult : distinguish resource = .ok { resource with endpoints := final.named } :=
      Outcome.bind_eq_ok.mpr ⟨final, hnames, rfl⟩
    have hnaming := naming_of_foldlM hstart (fun e he => List.mem_map_of_mem he) hnames
    rw [List.nil_append] at hnaming
    simp only [hresult]
    exact ⟨final.named, rfl, hnaming.named, fun i e he unique =>
      hnaming.named.first i e he (owner?_take_of_unique he unique)⟩
  | error failure =>
    have hresult : distinguish resource = .error failure :=
      Outcome.bind_eq_error.mpr (Or.inl hnames)
    obtain ⟨before, e, after, state, hsplit, hbefore, hfails⟩ := Outcome.foldlM_eq_error hnames
    have hown : ∀ f ∈ before ++ e :: after, f.methodName ∈ methodNames resource.endpoints :=
      fun f hf => List.mem_map_of_mem (hsplit ▸ hf)
    have hnaming := naming_of_foldlM hstart
      (fun f hf => hown f (List.mem_append_left _ hf)) hbefore
    rw [List.nil_append] at hnaming
    obtain ⟨owner, howner, ⟨candidates, hoffered, htaken, rfl⟩ | ⟨rfl, hparameter⟩⟩ :=
      nameEndpoint_eq_error hnaming (hown e (by simp)) hfails
    · rw [hresult]
      exact ⟨before, e, owner, state.named, candidates,
        ⟨⟨after, hsplit⟩, hnaming.named, howner, hoffered, htaken⟩, rfl, rfl⟩
    · rw [hresult]
      have hused : e.methodName ∈ methodNames before := by
        by_contra hnew
        cases (owner?_eq_none.mpr hnew).symm.trans howner
      exact ⟨rfl, before, e, after, hsplit, hused, hparameter⟩

/-- Three operations of one name. The last one has a candidate that is taken and gets the next. -/
example :
    let endpoints : List Endpoint := [
      ⟨{ method := "get", path := "/pets" }, "find", ""⟩,
      ⟨{ method := "get", path := "/pets/{id}" }, "find", "/{id}"⟩,
      ⟨{ method := "put", path := "/pets/{owner}/{id}" }, "find", "/{owner}/{id}"⟩]
    let resource : Resource := { name := "PetsResource", path := "/pets", key := .null, endpoints }
    (distinguish resource).toOption.map (fun result => methodNames result.endpoints) =
      some ["find", "findById", "findByOwnerAndId"] := by
  decide +kernel

end ApiContract.Grouping
