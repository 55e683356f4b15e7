import ApiContract.CommandLine.Run
import ApiContract.Proofs.Contract.Targets
import ApiContract.Proofs.Outcome

/-! # Settings that were accepted

However settings come about, from a mapping or by overriding others, they name dialects that
are known and packages whose parts are identifiers.
-/
namespace ApiContract.Settings

/-- What the checks of settings let through. -/
structure Accepted (s : Settings) : Prop where
  dialects : s.dialects ≠ []
  known : ∀ d ∈ s.dialects, d ∈ Dialect.known
  javaPackage : isPackage s.javaPackage = true
  beansPackage : ∀ p, s.beansPackage = some p → isPackage p = true
  workers : 1 ≤ s.workers

theorem accepted_default : Accepted {} where
  dialects := by decide
  known := by decide
  javaPackage := by decide +kernel
  beansPackage := by simp
  workers := by decide

theorem mem_known_of_named {name : Tree} {d : Dialect} (h : Dialect.named name = .ok d) :
    d ∈ Dialect.known := by
  unfold Dialect.named at h
  split at h
  · split at h
    · next hfound =>
      cases h
      exact List.mem_of_find?_eq_some hfound
    · cases h
  · cases h

theorem readPackage_eq_ok {key package : String} {value : Tree}
    (h : readPackage key value = .ok package) : isPackage package = true :=
  (Option.filter_eq_some_iff.mp (Outcome.need_eq_ok.mp h)).2

theorem readDialects_eq_ok {names : List Tree} {dialects : List Dialect}
    (h : readDialects names = .ok dialects) :
    dialects ≠ [] ∧ ∀ d ∈ dialects, d ∈ Dialect.known := by
  unfold readDialects at h
  split at h
  · cases h
  · next hne =>
    have hlength := (Outcome.forall₂_of_mapM h).length_eq
    refine ⟨?_, fun d hd => ?_⟩
    · rintro rfl
      exact hne (List.isEmpty_iff.mpr (List.length_eq_zero_iff.mp hlength))
    · obtain ⟨name, -, hname⟩ := Outcome.exists_of_mem_mapM h hd
      exact mem_known_of_named hname

theorem readWorkers_eq_ok {value : Tree} {workers : ℕ} (h : readWorkers value = .ok workers) :
    1 ≤ workers := by
  unfold readWorkers at h
  split at h
  · split at h
    · cases h
      omega
    · cases h
  · cases h

theorem readBeansPackage_eq_ok {value : Tree} {package : Option String}
    (h : readBeansPackage value = .ok package) : ∀ p, package = some p → isPackage p = true := by
  unfold readBeansPackage at h
  rintro p rfl
  split at h
  · cases h
  · obtain ⟨q, hq, he⟩ := Outcome.map_eq_ok.mp h
    cases he
    exact readPackage_eq_ok hq

/-- What is read once the names of the dialects are known. -/
def readNamed (fields : Fields) (names : List Tree) : Outcome Settings := do
  let dialects ← readDialects names
  let rule ← readRule ((Fields.field? fields "primary_response").getD (.text "lowest"))
  let workers ← readWorkers ((Fields.field? fields "workers").getD (.int 1))
  let groupByTags ← readGroupByTags ((Fields.field? fields "group_by_tags").getD (.bool false))
  let javaPackage ← readPackage "java_package"
    ((Fields.field? fields "java_package").getD (.text "org.example.api"))
  let beansPackage ← readBeansPackage ((Fields.field? fields "beans_package").getD .null)
  pure { javaPackage, beansPackage, dialects, groupByTags, responseRule := rule, workers }

theorem ofTree_eq_ok {tree : Tree} {s : Settings} (h : ofTree tree = .ok s) :
    ∃ fields names, readNamed fields names = .ok s := by
  obtain ⟨fields, -, h⟩ := Outcome.bind_eq_ok.mp h
  obtain ⟨unknown, -, h⟩ := Outcome.bind_eq_ok.mp h
  by_cases hunknown : (!unknown.isEmpty) = true
  · simp only [hunknown, if_true] at h
    cases h
  · simp only [hunknown, Bool.false_eq_true, if_false] at h
    split at h
    · obtain ⟨names, -, h⟩ := Outcome.bind_eq_ok.mp h
      exact ⟨fields, names, h⟩
    · exact ⟨fields, [.text Dialect.jaxrs.name], h⟩

theorem accepted_of_ofTree {tree : Tree} {s : Settings} (h : ofTree tree = .ok s) :
    s.Accepted := by
  obtain ⟨fields, names, h⟩ := ofTree_eq_ok h
  obtain ⟨dialects, hdialects, h⟩ := Outcome.bind_eq_ok.mp h
  obtain ⟨rule, -, h⟩ := Outcome.bind_eq_ok.mp h
  obtain ⟨workers, hworkers, h⟩ := Outcome.bind_eq_ok.mp h
  obtain ⟨groupByTags, -, h⟩ := Outcome.bind_eq_ok.mp h
  obtain ⟨javaPackage, hjava, h⟩ := Outcome.bind_eq_ok.mp h
  obtain ⟨beansPackage, hbeans, h⟩ := Outcome.bind_eq_ok.mp h
  cases h
  obtain ⟨hne, hknown⟩ := readDialects_eq_ok hdialects
  exact ⟨hne, hknown, readPackage_eq_ok hjava, readBeansPackage_eq_ok hbeans,
    readWorkers_eq_ok hworkers⟩

theorem Accepted.withDialects {s : Settings} (hs : s.Accepted) {names : List (Option String)}
    (hne : names ≠ []) {dialects : List Dialect} (h : names.mapM dialectOf = .ok dialects) :
    Accepted { s with dialects } := by
  refine { hs with dialects := ?_, known := ?_ }
  · rintro rfl
    exact hne (List.length_eq_zero_iff.mp (Outcome.forall₂_of_mapM h).length_eq)
  · intro d hd
    obtain ⟨name, -, hname⟩ := Outcome.exists_of_mem_mapM h hd
    obtain ⟨n, -, hn⟩ := Outcome.bind_eq_ok.mp hname
    exact mem_known_of_named hn

theorem Accepted.withPackage {s : Settings} (hs : s.Accepted) {javaPackage : String}
    (h : isPackage javaPackage = true) : Accepted { s with javaPackage } :=
  { hs with javaPackage := h }

theorem Accepted.override {s s' : Settings} (hs : s.Accepted) {names : List (Option String)}
    {package : Option String} (h : s.override names package = .ok s') : s'.Accepted := by
  unfold Settings.override at h
  by_cases hnames : names = []
  · subst hnames
    cases package with
    | none =>
      cases h
      exact hs
    | some p =>
      obtain ⟨dialects, hdialects, h⟩ := Outcome.bind_eq_ok.mp h
      cases hdialects
      obtain ⟨javaPackage, hjava, h⟩ := Outcome.bind_eq_ok.mp h
      cases h
      exact hs.withPackage (readPackage_eq_ok hjava)
  · simp only [List.isEmpty_iff, hnames, if_false] at h
    obtain ⟨dialects, hdialects, h⟩ := Outcome.bind_eq_ok.mp h
    have haccepted := hs.withDialects hnames hdialects
    cases package with
    | none =>
      cases h
      exact haccepted
    | some p =>
      obtain ⟨javaPackage, hjava, h⟩ := Outcome.bind_eq_ok.mp h
      cases h
      exact haccepted.withPackage (readPackage_eq_ok hjava)

/-- The package of the beans is a package also where it is not given. -/
theorem Accepted.beanPackage {s : Settings} (hs : s.Accepted) : isPackage s.beanPackage = true := by
  unfold Settings.beanPackage
  cases hbeans : s.beansPackage with
  | some p => exact hs.beansPackage p hbeans
  | none =>
    have hjava := hs.javaPackage
    have hname : Text.isIdentifier "beans".toList = true := by decide +kernel
    have hsplit : Text.splitAt '.' (s.javaPackage ++ ".beans").toList =
        Text.splitAt '.' s.javaPackage.toList ++ ["beans".toList] := by
      rw [String.toList_append]
      exact Text.splitAt_append '.' _ _
    rw [isPackage] at hjava ⊢
    rw [Option.getD_none, hsplit, List.all_append, hjava]
    simpa using hname

/-- Whatever a command line and its settings file say, the settings of its run are accepted. -/
theorem accepted_of_settingsOf {look : CommandLine.Look} {i : CommandLine.Invocation}
    {s : Settings} (h : CommandLine.settingsOf look i = .ok s) : s.Accepted := by
  have hoverride : ∀ base : Settings, base.Accepted →
      CommandLine.halting (base.override i.dialects i.package) = .ok s → s.Accepted := by
    intro base hbase h
    cases hs : base.override i.dialects i.package with
    | error e =>
      rw [hs] at h
      cases h
    | ok s' =>
      rw [hs] at h
      cases h
      exact hbase.override hs
  unfold CommandLine.settingsOf at h
  cases hconfig : i.config with
  | none =>
    rw [hconfig] at h
    exact hoverride {} accepted_default h
  | some path =>
    rw [hconfig] at h
    simp only [bind, Except.bind] at h
    cases htext : CommandLine.readText look path with
    | error halt => simp [htext] at h
    | ok text =>
      simp only [htext] at h
      cases hread : Input.settings text with
      | error e => simp [hread, CommandLine.halting, Except.mapError] at h
      | ok base =>
        obtain ⟨tree, -, hbase⟩ := Outcome.bind_eq_ok.mp hread
        rw [hread] at h
        exact hoverride base (accepted_of_ofTree hbase) h

end ApiContract.Settings
