import LineShell.Proofs.Config.Loading

/-!
# Proofs/Config/Heeding — which entries of a file are heeded

    entry of the table of settings     ──▸  a setting, or an error     (`Heeds`)
    entry beside a table `shell`       ──▸  nothing

Entries are heeded if a wrong one among them is an error and each of the others is the value of its
setting.  Loading heeds the entries of the table of settings (`Judged.heeds`), which are all that
there are in a file without a table `shell`.  What stands beside such a table is never looked at, so
a file as a whole is heeded only as far as these entries happen to agree with what was loaded
(`load_heeds_iff`).
-/

namespace LineShell

namespace Settings

/-! ## Entries of a document -/

/-- The entries of a document: those of its table `shell`, and those of its top level other than
that table. -/
inductive EntryOf (document : Toml.Table) : String × Toml.Value → Prop
  | nested {table : Toml.Table} {entry : String × Toml.Value} :
      ("shell", .table table) ∈ document → entry ∈ table → EntryOf document entry
  | top {key : String} {value : Toml.Value} : (key, value) ∈ document →
      (key = "shell" → ∀ table, value ≠ .table table) → EntryOf document (key, value)

/-- The entry stands beside a table `shell`. -/
structure Beside (document : Toml.Table) (entry : String × Toml.Value) : Prop where
  mem : entry ∈ document
  notShell : entry.1 ≠ "shell"
  shell : ∃ table, ("shell", .table table) ∈ document

/-- **The entries of a document are those of its table of settings and those beside it.** -/
theorem SectionOf.entryOf_iff {document table : Toml.Table}
    (hnodup : (document.map Prod.fst).Nodup) (h : SectionOf document table)
    {entry : String × Toml.Value} :
    EntryOf document entry ↔ entry ∈ table ∨ Beside document entry := by
  constructor
  · intro he
    cases he with
    | nested hshell he => exact .inl (h.eq hnodup (.nested hshell) ▸ he)
    | @top key value he hkey =>
      cases h with
      | whole => exact .inl he
      | @nested table hshell =>
        refine .inr ⟨he, fun hk => ?_, table, hshell⟩
        obtain rfl : key = "shell" := hk
        have hlookup := (Toml.lookup_of_mem hnodup he).symm.trans (Toml.lookup_of_mem hnodup hshell)
        exact hkey rfl table (Option.some.inj hlookup)
  · rintro (he | he)
    · cases h with
      | nested hshell => exact .nested hshell he
      | whole h => exact .top he fun hkey table ht => h table (hkey ▸ ht ▸ he)
    · exact .top he.mem fun hkey => absurd hkey he.notShell

/-! ## Taking effect -/

/-- The entry has taken effect: its value is a text, and the setting that its key names is this
text. -/
def Effective (s : Settings) (entry : String × Toml.Value) : Prop :=
  ∃ text, entry.2 = .text text ∧ s.get? entry.1 = some text

theorem mem_keys_of_get? {s : Settings} {key text : String} (h : s.get? key = some text) :
    key ∈ keys := by
  grind [get?, keys]

theorem Effective.legible {s : Settings} {entry : String × Toml.Value} (h : Effective s entry) :
    Legible entry := by
  obtain ⟨key, value⟩ := entry
  obtain ⟨text, rfl, hget⟩ := h
  exact .setting (mem_keys_of_get? hget)

theorem Gives.effective {m : Machine} {table : Toml.Table} {s : Settings}
    (hnodup : (table.map Prod.fst).Nodup) (h : Gives m table s) {entry : String × Toml.Value}
    (he : entry ∈ table) (hlegible : Legible entry) : Effective s entry := by
  obtain ⟨key, value⟩ := entry
  obtain ⟨hkey, text, rfl⟩ := hlegible.exists_text
  refine ⟨text, rfl, ?_⟩
  simp only [keys, List.mem_cons, List.not_mem_nil, or_false] at hkey
  rcases hkey with rfl | rfl | rfl | rfl
  · exact congrArg some (h.name.eq hnodup (.given he))
  · exact congrArg some (h.user.eq hnodup (.given he))
  · exact congrArg some (h.host.eq hnodup (.given he))
  · exact congrArg some (h.prompt.eq hnodup (.given he))

/-! ## Heeding -/

/-- The outcome complains about a key. -/
def Refuses (outcome : Except SettingsFault Settings) : Prop :=
  (∃ key path, outcome = .error (.unknownKey key path)) ∨ ∃ key, outcome = .error (.notText key)

/-- The outcome heeds the entries: one that is not legible is an error, and settings are returned
only if every entry has taken effect. -/
structure Heeds (entries : String × Toml.Value → Prop)
    (outcome : Except SettingsFault Settings) : Prop where
  refuses : (∃ entry, entries entry ∧ ¬ Legible entry) → Refuses outcome
  takes : ∀ s, outcome = .ok s → ∀ entry, entries entry → Effective s entry

section Judged

variable {m : Machine} {path : String} {table : Toml.Table}
  {outcome : Except SettingsFault Settings}

/-- A table of settings is returned, or a key of it is complained about. -/
theorem Judged.ok_or_refuses (h : Judged m path table outcome) :
    (∃ s, outcome = .ok s) ∨ Refuses outcome := by
  obtain hlegible | ⟨before, key, value, after, htable, hbefore, hentry⟩ := legible_or_first table
  · exact .inl (h.returns_iff.mpr hlegible)
  · refine .inr ?_
    by_cases hkey : key ∈ keys
    · refine .inr ⟨key, h.notText before key value after htable hbefore hkey ?_⟩
      rintro text rfl
      exact hentry (.setting hkey)
    · exact .inl ⟨key, path, h.unknown before key value after htable hbefore hkey⟩

/-- **The entries of the table of settings are heeded.** -/
theorem Judged.heeds (h : Judged m path table outcome) (hnodup : (table.map Prod.fst).Nodup) :
    Heeds (· ∈ table) outcome where
  refuses := by
    rintro ⟨entry, he, hentry⟩
    refine h.ok_or_refuses.resolve_left fun hs => hentry ?_
    exact h.returns_iff.mp hs entry he
  takes s hs entry he := by
    obtain ⟨hlegible, hgives⟩ := (h.gives s).mp hs
    exact hgives.effective hnodup he (hlegible entry he)

end Judged

/-- What stands beside a table `shell` is not looked at. -/
theorem ofDocument_of_shell (m : Machine) (path : String) {document table : Toml.Table}
    (hnodup : (document.map Prod.fst).Nodup) (h : ("shell", .table table) ∈ document) :
    ofDocument m path document = (default m).apply path table := by
  rw [ofDocument, SectionOf.tableOf_eq hnodup (.nested h)]

/-- **Which files are heeded.**  Whatever is read, the entries of the table of settings are heeded.
The file as a whole is heeded exactly if, whenever settings are returned, the entries beside a table
`shell` are the values of their settings too, which nothing sees to: two files of one path with the
same table `shell` have the same outcome, whatever stands beside it. -/
theorem load_heeds_iff {m : Machine} {source : Option String} {path : String}
    {document table : Toml.Table} (h : Opens m source path document)
    (hsection : SectionOf document table) :
    Heeds (· ∈ table) (load m source) ∧
    (Heeds (EntryOf document) (load m source) ↔
      ∀ s, load m source = .ok s → ∀ entry, Beside document entry → Effective s entry) ∧
    (∀ m' source' document', m'.loginUser = m.loginUser → m'.host = m.host →
      Opens m' source' path document' → ("shell", .table table) ∈ document →
        ("shell", .table table) ∈ document' → load m' source' = load m source) := by
  have hjudged := h.judged hsection
  have hheeds := hjudged.heeds (hsection.distinct h.distinct).nodup
  have hentries : ∀ entry, EntryOf document entry ↔ entry ∈ table ∨ Beside document entry :=
    fun _ => hsection.entryOf_iff h.distinct.nodup
  refine ⟨hheeds, ⟨fun hall s hs entry he => ?_, fun hbeside => ?_⟩,
    fun m' source' document' huser hhost h' hshell hshell' => ?_⟩
  · exact hall.takes s hs entry ((hentries entry).mpr (.inr he))
  · constructor
    · rintro ⟨entry, he, hentry⟩
      refine hjudged.ok_or_refuses.resolve_left fun ⟨s, hs⟩ => hentry ?_
      obtain he | he := (hentries entry).mp he
      · exact (hheeds.takes s hs entry he).legible
      · exact (hbeside s hs entry he).legible
    · intro s hs entry he
      obtain he | he := (hentries entry).mp he
      · exact hheeds.takes s hs entry he
      · exact hbeside s hs entry he
  · have hdefault : default m' = default m := by rw [default, default, huser, hhost]
    rw [h.load_eq, h'.load_eq, ofDocument_of_shell m path h.distinct.nodup hshell,
      ofDocument_of_shell m' path h'.distinct.nodup hshell', hdefault]

/-- A file that says the user twice, and the same, is heeded. -/
theorem load_heeds_iff_twice :
    let m : Machine := {
      loginUser := some "tester", host := "testhost", userConfigPath := "own.toml"
      userConfig := none
      read := fun _ => .ok (Text.Utf8.encode "user = 'will'\n[shell]\nuser = 'will'\n".toList) }
    ∃ document, Opens m (some "c.toml") "c.toml" document ∧
      Beside document ("user", .text "will") ∧
      Heeds (EntryOf document) (load m (some "c.toml")) := by
  intro m
  let table : Toml.Table := [("user", .text "will")]
  let document : Toml.Table := [("user", .text "will"), ("shell", .table table)]
  have hopens : Opens m (some "c.toml") (Files.normalPath "c.toml") document :=
    .given rfl (Text.Utf8.decode_encode _) (by cbv)
  have hshell : ("shell", Toml.Value.table table) ∈ document := by simp [document]
  have hbeside : Beside document ("user", .text "will") :=
    ⟨List.mem_cons_self, by decide, table, hshell⟩
  obtain ⟨hheeds, hiff, -⟩ := load_heeds_iff hopens (.nested hshell)
  refine ⟨document, hopens, hbeside, hiff.mpr fun s hs entry he => ?_⟩
  have hentry : entry = ("user", .text "will") := by
    obtain rfl | he' := List.mem_cons.mp he.mem
    · rfl
    · exact absurd (congrArg Prod.fst (List.mem_singleton.mp he')) he.notShell
  exact hheeds.takes s hs entry (hentry ▸ List.mem_cons_self)

/-- A misspelt key beside a table `shell` is no error, and nothing comes of it. -/
theorem load_ignores :
    let m : Machine := {
      loginUser := some "tester", host := "testhost", userConfigPath := "own.toml"
      userConfig := none
      read := fun _ => .ok (Text.Utf8.encode
        "colour = \"red\"\n[shell]\nuser = \"will\"\n".toList) }
    ∃ document, Opens m (some "c.toml") "c.toml" document ∧
      EntryOf document ("colour", .text "red") ∧ ¬ Legible ("colour", .text "red") ∧
      load m (some "c.toml") =
        .ok ⟨"termshell", "will", "testhost", "\x7buser\x7d@\x7bhost\x7d$ "⟩ ∧
      ¬ Heeds (EntryOf document) (load m (some "c.toml")) := by
  intro m
  let table : Toml.Table := [("user", .text "will")]
  let document : Toml.Table := [("colour", .text "red"), ("shell", .table table)]
  have hopens : Opens m (some "c.toml") (Files.normalPath "c.toml") document :=
    .given rfl (Text.Utf8.decode_encode _) (by cbv)
  have hentry : EntryOf document ("colour", .text "red") :=
    .top List.mem_cons_self fun h => absurd h (by decide)
  have hkey : ¬ Legible ("colour", .text "red") :=
    fun h => absurd h.exists_text.1 (by decide)
  have hload : load m (some "c.toml") =
      .ok ⟨"termshell", "will", "testhost", "\x7buser\x7d@\x7bhost\x7d$ "⟩ := by
    have hshell : ("shell", Toml.Value.table table) ∈ document := by simp [document]
    refine ((hopens.judged (.nested hshell)).gives _).mpr ⟨?_, ?_⟩
    · intro entry he
      obtain rfl := List.mem_singleton.mp he
      exact .setting (by decide)
    · exact ⟨.absent (by simp [table]), .given List.mem_cons_self, .absent (by simp [table]),
        .absent (by simp [table])⟩
  refine ⟨document, hopens, hentry, hkey, hload, fun h => ?_⟩
  exact hkey (h.takes _ hload _ hentry).legible

end Settings

end LineShell
