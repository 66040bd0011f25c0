import Mathlib
import LineShell.Config.Settings
import LineShell.Proofs.Config.Distinct
import LineShell.Proofs.Text.Utf8

/-!
# Proofs/Config/Loading — what settings are loaded, and what is wrong with the others

    file ──▸ document ──▸ table of settings ──entry, entry, ⋯──▸ settings, or what is wrong

The settings of a file stand in its table `shell` or, without one, at its top level (`SectionOf`).
An entry is legible if its key names a setting and its value is a text.  Settings are loaded exactly
if all entries are legible, and then each of the four is what its entry says or the default,
wherever the entry stands; otherwise the first entry that is not legible is reported (`Judged`).
That a table has no key twice, which makes "its entry" well defined, is what
`Proofs/Config/Distinct` shows of every document that is read.
-/

namespace LineShell

namespace Toml

theorem mem_of_lookup {key : String} {v : Value} : ∀ {t : Table},
    t.lookup key = some v → (key, v) ∈ t
  | (k, w) :: rest, h => by
    rw [List.lookup_cons] at h
    split at h
    · next he =>
      obtain rfl : key = k := by simpa using he
      exact Option.some.inj h ▸ List.mem_cons_self
    · exact List.mem_cons_of_mem _ (mem_of_lookup h)

theorem lookup_of_mem {key : String} {v : Value} : ∀ {t : Table}, (t.map Prod.fst).Nodup →
    (key, v) ∈ t → t.lookup key = some v
  | (k, w) :: rest, hnodup, h => by
    obtain ⟨hfirst, hrest⟩ := List.nodup_cons.mp hnodup
    rw [List.lookup_cons]
    rcases List.mem_cons.mp h with he | h
    · obtain ⟨rfl, rfl⟩ := Prod.mk.inj he
      simp
    · have hne : (key == k) = false :=
        beq_eq_false_iff_ne.mpr fun he => hfirst (List.mem_map.mpr ⟨(key, v), h, he⟩)
      rw [hne]
      exact lookup_of_mem hrest h

theorem table?_eq_some_iff {t entries : Table} {key : String} (hnodup : (t.map Prod.fst).Nodup) :
    t.table? key = some entries ↔ (key, .table entries) ∈ t := by
  refine ⟨fun h => mem_of_lookup ?_, fun h => ?_⟩
  · rw [Table.table?] at h
    split at h
    · next sub hl => rw [hl, Option.some.inj h]
    · cases h
  · rw [Table.table?, lookup_of_mem hnodup h]

end Toml

namespace Settings

/-! ## Single settings -/

/-- The keys that name a setting. -/
def keys : List String := ["name", "user", "host", "prompt"]

theorem isKey_iff {key : String} : isKey key = true ↔ key ∈ keys := by
  simp [isKey, keys, or_assoc]

/-- The setting that a key names. -/
def get? (s : Settings) (key : String) : Option String :=
  if key = "name" then some s.name
  else if key = "user" then some s.user
  else if key = "host" then some s.host
  else if key = "prompt" then some s.prompt
  else none

/-- A key that names a setting changes this one and no other… -/
theorem exists_update? {key : String} (h : key ∈ keys) (s : Settings) (text : String) :
    ∃ t, s.update? key text = some t ∧
      ∀ other, t.get? other = if other = key then some text else s.get? other := by
  simp only [keys, List.mem_cons, List.not_mem_nil, or_false] at h
  rcases h with rfl | rfl | rfl | rfl
  all_goals
    refine ⟨_, rfl, fun other => ?_⟩
    grind [get?]

/-- …and another key changes nothing. -/
theorem update?_of_notMem {key : String} (h : key ∉ keys) (s : Settings) (text : String) :
    s.update? key text = none := by
  simp only [keys, List.mem_cons, List.not_mem_nil, or_false, not_or] at h
  simp [update?, h]

/-! ## Entries -/

/-- The entries that settings take: the key names a setting, and the value is a text. -/
inductive Legible : String × Toml.Value → Prop
  | setting {key text : String} : key ∈ keys → Legible (key, .text text)

theorem Legible.exists_text {key : String} {value : Toml.Value} (h : Legible (key, value)) :
    key ∈ keys ∧ ∃ text, value = .text text := by
  cases h with
  | setting hkey => exact ⟨hkey, _, rfl⟩

/-- What is wrong with an entry that is not legible. -/
def entryFault (path key : String) : SettingsFault :=
  if key ∈ keys then .notText key else .unknownKey key path

theorem apply_cons_of_not_legible {path key : String} {value : Toml.Value}
    (h : ¬ Legible (key, value)) (s : Settings) (rest : Toml.Table) :
    apply path s ((key, value) :: rest) = .error (entryFault path key) := by
  cases value with
  | text text =>
    have hkey : key ∉ keys := fun hkey => h (.setting hkey)
    simp only [apply, update?_of_notMem hkey, entryFault, if_neg hkey]
  | integer | float | boolean | moment | array | table =>
    simp only [apply, isKey_iff, entryFault]

/-- **The first entry that is not legible is reported**, whatever stands behind it. -/
theorem apply_of_first (path : String) {key : String} {value : Toml.Value}
    (h : ¬ Legible (key, value)) (after : Toml.Table) :
    ∀ (before : Toml.Table) (s : Settings), (∀ e ∈ before, Legible e) →
      apply path s (before ++ (key, value) :: after) = .error (entryFault path key)
  | [], s, _ => apply_cons_of_not_legible h s after
  | (k, v) :: before, s, hbefore => by
    obtain ⟨hk, text, rfl⟩ := (hbefore _ List.mem_cons_self).exists_text
    obtain ⟨t, ht, -⟩ := exists_update? hk s text
    have hrest := apply_of_first path h after before t
      fun e he => hbefore e (List.mem_cons_of_mem _ he)
    simp only [List.cons_append, apply, ht, hrest]

/-- **Legible entries change the settings that they name**, each to its text, and no other. -/
theorem exists_apply (path : String) : ∀ (table : Toml.Table) (s : Settings),
    (table.map Prod.fst).Nodup → (∀ e ∈ table, Legible e) → ∃ t, apply path s table = .ok t ∧
      ∀ key, (∀ text, (key, .text text) ∈ table → t.get? key = some text) ∧
        ((∀ value, (key, value) ∉ table) → t.get? key = s.get? key)
  | [], s, _, _ => ⟨s, rfl, fun key => ⟨fun text h => by simp at h, fun _ => rfl⟩⟩
  | (k, v) :: rest, s, hnodup, h => by
    obtain ⟨hk, text, rfl⟩ := (h _ List.mem_cons_self).exists_text
    obtain ⟨hfirst, hnodup⟩ := List.nodup_cons.mp hnodup
    obtain ⟨s', hs', hget⟩ := exists_update? hk s text
    obtain ⟨t, ht, hall⟩ := exists_apply path rest s' hnodup
      fun e he => h e (List.mem_cons_of_mem _ he)
    refine ⟨t, by simp only [apply, hs', ht], fun key => ⟨fun text' hmem => ?_, fun habsent => ?_⟩⟩
    · rcases List.mem_cons.mp hmem with he | hmem
      · obtain ⟨rfl, hv⟩ := Prod.mk.inj he
        have hkeep := (hall key).2 fun value hvalue =>
          hfirst (List.mem_map.mpr ⟨_, hvalue, rfl⟩)
        rw [hkeep, hget, if_pos rfl, Toml.Value.text.inj hv]
      · exact (hall key).1 text' hmem
    · have hne : key ≠ k := by
        rintro rfl
        exact habsent _ List.mem_cons_self
      rw [(hall key).2 fun value hvalue => habsent value (List.mem_cons_of_mem _ hvalue), hget,
        if_neg hne]

/-- Entries are all legible, or there is a first that is not. -/
theorem legible_or_first : ∀ table : Toml.Table, (∀ e ∈ table, Legible e) ∨
    ∃ before key value after, table = before ++ (key, value) :: after ∧
      (∀ e ∈ before, Legible e) ∧ ¬ Legible (key, value)
  | [] => .inl fun e he => by cases he
  | (k, v) :: rest => by
    by_cases hk : Legible (k, v)
    · obtain hrest | ⟨before, key, value, after, rfl, hbefore, h⟩ := legible_or_first rest
      · exact .inl (List.forall_mem_cons.mpr ⟨hk, hrest⟩)
      · exact .inr ⟨(k, v) :: before, key, value, after, rfl,
          List.forall_mem_cons.mpr ⟨hk, hbefore⟩, h⟩
    · exact .inr ⟨[], k, v, rest, rfl, fun e he => (by cases he), hk⟩

/-! ## The table of settings -/

/-- The table of a document that holds the settings: its table `shell`, or the document itself if
it has none. -/
inductive SectionOf (document : Toml.Table) : Toml.Table → Prop
  | nested {table : Toml.Table} : ("shell", .table table) ∈ document → SectionOf document table
  | whole : (∀ table, ("shell", .table table) ∉ document) → SectionOf document document

theorem exists_sectionOf (document : Toml.Table) : ∃ table, SectionOf document table := by
  by_cases h : ∃ table, ("shell", .table table) ∈ document
  · obtain ⟨table, h⟩ := h
    exact ⟨table, .nested h⟩
  · exact ⟨document, .whole fun table ht => h ⟨table, ht⟩⟩

theorem SectionOf.tableOf_eq {document table : Toml.Table}
    (hnodup : (document.map Prod.fst).Nodup) (h : SectionOf document table) :
    tableOf document = table := by
  cases h with
  | nested h => rw [tableOf, (Toml.table?_eq_some_iff hnodup).mpr h, Option.getD_some]
  | whole h =>
    have hnone : Toml.Table.table? document "shell" = none :=
      Option.eq_none_iff_forall_ne_some.mpr fun table ht =>
        h table ((Toml.table?_eq_some_iff hnodup).mp ht)
    rw [tableOf, hnone, Option.getD_none]

/-- A document has one table of settings. -/
theorem SectionOf.eq {document table other : Toml.Table} (hnodup : (document.map Prod.fst).Nodup)
    (h : SectionOf document table) (h' : SectionOf document other) : other = table :=
  (h'.tableOf_eq hnodup).symm.trans (h.tableOf_eq hnodup)

/-! ## The verdict -/

/-- What a table says for a key: the text that it gives, or else the default. -/
inductive Chosen (table : Toml.Table) (key default : String) : String → Prop
  | given {text : String} : (key, .text text) ∈ table → Chosen table key default text
  | absent : (∀ value, (key, value) ∉ table) → Chosen table key default default

theorem Chosen.eq {table : Toml.Table} {key default a b : String}
    (hnodup : (table.map Prod.fst).Nodup) (ha : Chosen table key default a)
    (hb : Chosen table key default b) : a = b := by
  cases ha with
  | given ha =>
    cases hb with
    | given hb =>
      have he := (Toml.lookup_of_mem hnodup ha).symm.trans (Toml.lookup_of_mem hnodup hb)
      exact Toml.Value.text.inj (Option.some.inj he)
    | absent hb => exact absurd ha (hb _)
  | absent ha =>
    cases hb with
    | given hb => exact absurd hb (ha _)
    | absent => rfl

/-- Every setting is what the table says for its key. -/
structure Gives (m : Machine) (table : Toml.Table) (s : Settings) : Prop where
  name : Chosen table "name" "termshell" s.name
  user : Chosen table "user" (m.loginUser.getD "guest") s.user
  host : Chosen table "host" m.host s.host
  prompt : Chosen table "prompt" "\x7buser\x7d@\x7bhost\x7d$ " s.prompt

theorem Gives.eq {m : Machine} {table : Toml.Table} {s t : Settings}
    (hnodup : (table.map Prod.fst).Nodup) (hs : Gives m table s) (ht : Gives m table t) :
    s = t := by
  obtain ⟨name, user, host, prompt⟩ := s
  obtain rfl : name = t.name := hs.name.eq hnodup ht.name
  obtain rfl : user = t.user := hs.user.eq hnodup ht.user
  obtain rfl : host = t.host := hs.host.eq hnodup ht.host
  obtain rfl : prompt = t.prompt := hs.prompt.eq hnodup ht.prompt
  rfl

/-- The order of the entries does not count. -/
theorem Gives.perm {m : Machine} {table other : Toml.Table} {s : Settings}
    (hperm : table.Perm other) (h : Gives m table s) : Gives m other s := by
  have hchosen : ∀ {key byDefault text : String}, Chosen table key byDefault text →
      Chosen other key byDefault text := by
    intro key byDefault text h
    cases h with
    | given h => exact .given (hperm.mem_iff.mp h)
    | absent h => exact .absent fun value hvalue => h value (hperm.mem_iff.mpr hvalue)
  exact ⟨hchosen h.name, hchosen h.user, hchosen h.host, hchosen h.prompt⟩

/-- The outcome of loading a table of settings from a file of this path. -/
structure Judged (m : Machine) (path : String) (table : Toml.Table)
    (outcome : Except SettingsFault Settings) : Prop where
  /-- Settings are returned exactly if every entry is legible. -/
  returns_iff : (∃ s, outcome = .ok s) ↔ ∀ entry ∈ table, Legible entry
  /-- The settings that are returned are those that the table says. -/
  gives : ∀ s, outcome = .ok s ↔ (∀ entry ∈ table, Legible entry) ∧ Gives m table s
  /-- The first entry that is not legible is reported as unknown if its key names no setting,
  whatever its value is… -/
  unknown : ∀ before key value after, table = before ++ (key, value) :: after →
    (∀ entry ∈ before, Legible entry) → key ∉ keys → outcome = .error (.unknownKey key path)
  /-- …and as something other than a text if its key does. -/
  notText : ∀ before key value after, table = before ++ (key, value) :: after →
    (∀ entry ∈ before, Legible entry) → key ∈ keys → (∀ text, value ≠ .text text) →
      outcome = .error (.notText key)

/-- Tables with the same entries are accepted for the same settings. -/
theorem Judged.ok_of_perm {m : Machine} {path path' : String} {table other : Toml.Table}
    {outcome outcome' : Except SettingsFault Settings} (h : Judged m path table outcome)
    (h' : Judged m path' other outcome') (hperm : table.Perm other) {s : Settings}
    (hs : outcome = .ok s) : outcome' = .ok s := by
  obtain ⟨hlegible, hgives⟩ := (h.gives s).mp hs
  exact (h'.gives s).mpr ⟨fun entry he => hlegible entry (hperm.mem_iff.mpr he), hgives.perm hperm⟩

theorem exists_apply_default (m : Machine) (path : String) {table : Toml.Table}
    (hnodup : (table.map Prod.fst).Nodup) (h : ∀ entry ∈ table, Legible entry) :
    ∃ s, (default m).apply path table = .ok s ∧ Gives m table s := by
  obtain ⟨s, hs, hall⟩ := exists_apply path table (default m) hnodup h
  have hchosen : ∀ {key value byDefault : String}, s.get? key = some value →
      (default m).get? key = some byDefault → Chosen table key byDefault value := by
    intro key value byDefault hget hdefault
    by_cases hmem : ∃ v, (key, v) ∈ table
    · obtain ⟨v, hv⟩ := hmem
      obtain ⟨-, text, rfl⟩ := (h _ hv).exists_text
      have he := hget.symm.trans ((hall key).1 text hv)
      exact Option.some.inj he ▸ .given hv
    · have habsent : ∀ v, (key, v) ∉ table := fun v hv => hmem ⟨v, hv⟩
      have he := hget.symm.trans (((hall key).2 habsent).trans hdefault)
      exact Option.some.inj he ▸ .absent habsent
  exact ⟨s, hs, hchosen rfl rfl, hchosen rfl rfl, hchosen rfl rfl, hchosen rfl rfl⟩

/-- **A table is judged by its entries.** -/
theorem judged_apply (m : Machine) (path : String) {table : Toml.Table}
    (hnodup : (table.map Prod.fst).Nodup) :
    Judged m path table ((default m).apply path table) := by
  have hfault : ∀ before key value after, table = before ++ (key, value) :: after →
      (∀ entry ∈ before, Legible entry) → ¬ Legible (key, value) →
      (default m).apply path table = .error (entryFault path key) := by
    rintro before key value after rfl hbefore h
    exact apply_of_first path h after before (default m) hbefore
  have hlegible : ∀ s, (default m).apply path table = .ok s → ∀ entry ∈ table, Legible entry := by
    intro s hs
    obtain h | ⟨before, key, value, after, htable, hbefore, h⟩ := legible_or_first table
    · exact h
    · rw [hfault before key value after htable hbefore h] at hs
      cases hs
  constructor
  · refine ⟨fun ⟨s, hs⟩ => hlegible s hs, fun h => ?_⟩
    obtain ⟨s, hs, -⟩ := exists_apply_default m path hnodup h
    exact ⟨s, hs⟩
  · refine fun s => ⟨fun hs => ⟨hlegible s hs, ?_⟩, fun ⟨h, hgives⟩ => ?_⟩
    · obtain ⟨t, ht, hgives⟩ := exists_apply_default m path hnodup (hlegible s hs)
      rw [ht] at hs
      exact Except.ok.inj hs ▸ hgives
    · obtain ⟨t, ht, hgives'⟩ := exists_apply_default m path hnodup h
      rw [ht, hgives.eq hnodup hgives']
  · intro before key value after htable hbefore hkey
    rw [hfault before key value after htable hbefore fun h => hkey h.exists_text.1, entryFault,
      if_neg hkey]
  · intro before key value after htable hbefore hkey htext
    have h : ¬ Legible (key, value) := fun h => h.exists_text.2.elim htext
    rw [hfault before key value after htable hbefore h, entryFault, if_pos hkey]

/-- …and so is a document by those of its table of settings. -/
theorem judged_ofDocument (m : Machine) (path : String) {document table : Toml.Table}
    (hdocument : (document.map Prod.fst).Nodup) (htable : (table.map Prod.fst).Nodup)
    (h : SectionOf document table) : Judged m path table (ofDocument m path document) := by
  rw [ofDocument, h.tableOf_eq hdocument]
  exact judged_apply m path htable

/-! ## Files -/

/-- Loading from this source finds a file, under this path, and reads it as this document. -/
inductive Opens (m : Machine) : Option String → String → Toml.Table → Prop
  | own {bytes : List UInt8} {cs : List Char} {document : Toml.Table} :
      m.userConfig = some bytes → Text.Utf8.decode bytes = .ok cs →
      Toml.document? (Text.unifyBreaks cs) = some document →
      Opens m none m.userConfigPath document
  | given {path : String} {bytes : List UInt8} {cs : List Char} {document : Toml.Table} :
      m.read (Files.normalPath path) = .ok bytes → Text.Utf8.decode bytes = .ok cs →
      Toml.document? (Text.unifyBreaks cs) = some document →
      Opens m (some path) (Files.normalPath path) document

variable {m : Machine} {source : Option String} {path : String} {document table : Toml.Table}

theorem Opens.load_eq (h : Opens m source path document) :
    load m source = ofDocument m path document := by
  cases h with
  | own hbytes hcs hdocument => simp only [load, hbytes, ofContent, hcs, hdocument]
  | given hbytes hcs hdocument => simp only [load, hbytes, ofContent, hcs, hdocument]

theorem Opens.distinct (h : Opens m source path document) : Toml.Table.Distinct document := by
  cases h with
  | own _ _ hdocument => exact Toml.distinct_of_document? hdocument
  | given _ _ hdocument => exact Toml.distinct_of_document? hdocument

theorem SectionOf.distinct (h : SectionOf document table)
    (hdocument : Toml.Table.Distinct document) : Toml.Table.Distinct table := by
  cases h with
  | nested h => exact hdocument.of_mem h
  | whole => exact hdocument

theorem Opens.judged (h : Opens m source path document) (hsection : SectionOf document table) :
    Judged m path table (load m source) := by
  rw [h.load_eq]
  exact judged_ofDocument m path h.distinct.nodup (hsection.distinct h.distinct).nodup hsection

/-- **What is accepted, what is returned, and what is reported.**  A document has one table of
settings, and what is loaded is judged by its entries: for every document whose keys are distinct,
and so for every file that can be read.  The order of the entries does not matter to what is
returned.  A key `shell` that has no table is a key like any other, and names no setting. -/
theorem load_judged (m : Machine) :
    (∀ document : Toml.Table, (document.map Prod.fst).Nodup →
      ∃ table, SectionOf document table ∧ ∀ other, SectionOf document other → other = table) ∧
    (∀ path (document table : Toml.Table), (document.map Prod.fst).Nodup →
      (table.map Prod.fst).Nodup → SectionOf document table →
        Judged m path table (ofDocument m path document)) ∧
    (∀ source path document table, Opens m source path document → SectionOf document table →
      Judged m path table (load m source)) ∧
    (∀ source source' path path' document document' table table',
      Opens m source path document → Opens m source' path' document' →
      SectionOf document table → SectionOf document' table' → table.Perm table' →
        ∀ s, load m source = .ok s → load m source' = .ok s) ∧
    (∀ source path before value after, Opens m source path (before ++ ("shell", value) :: after) →
      (∀ entry ∈ before, Legible entry) → (∀ table, value ≠ .table table) →
        load m source = .error (.unknownKey "shell" path)) ∧
    (∀ key path, (SettingsFault.unknownKey key path).message =
        "Unknown config key '" ++ key ++ "' in '" ++ path ++ "'" ∧
      (SettingsFault.notText key).message = "Config key '" ++ key ++ "' must be a string") := by
  refine ⟨fun document hnodup => ?_, fun path document table => judged_ofDocument m path,
    fun source path document table => Opens.judged, ?_, ?_, fun key path => ⟨rfl, rfl⟩⟩
  · obtain ⟨table, htable⟩ := exists_sectionOf document
    exact ⟨table, htable, fun other => htable.eq hnodup⟩
  · intro source source' path path' document document' table table' h h' htable htable' hperm s
    exact (h.judged htable).ok_of_perm (h'.judged htable') hperm
  · intro source path before value after h hbefore hvalue
    have hwhole : ∀ table, ("shell", .table table) ∉ before ++ ("shell", value) :: after := by
      intro table hmem
      have hlookup := Toml.lookup_of_mem h.distinct.nodup hmem
      rw [Toml.lookup_of_mem h.distinct.nodup (List.mem_append_right _ List.mem_cons_self)]
        at hlookup
      exact hvalue table (Option.some.inj hlookup)
    exact (h.judged (.whole hwhole)).unknown before "shell" value after rfl hbefore (by decide)

/-- A file with two settings, and one whose second entry is the first that is wrong. -/
theorem load_judged_files :
    let m : Machine := {
      loginUser := none, host := "box", userConfigPath := "own.toml"
      userConfig := some (Text.Utf8.encode "host = 'a'\nuser = 3".toList)
      read := fun _ => .ok (Text.Utf8.encode "[shell]\nprompt = \"> \"\nname = 'tsh'".toList) }
    load m (some "./c.toml") = .ok ⟨"tsh", "guest", "box", "> "⟩ ∧
      load m none = .error (.notText "user") := by
  intro m
  obtain ⟨-, -, hload, -⟩ := load_judged m
  constructor
  · have hopens : Opens m (some "./c.toml") (Files.normalPath "./c.toml")
        [("shell", .table [("prompt", .text "> "), ("name", .text "tsh")])] :=
      .given rfl (Text.Utf8.decode_encode _) (by cbv)
    refine ((hload _ _ _ _ hopens (.nested List.mem_cons_self)).gives _).mpr ⟨?_, ?_⟩
    · intro entry he
      rcases List.mem_cons.mp he with rfl | he
      · exact .setting (by decide)
      · obtain rfl := List.mem_singleton.mp he
        exact .setting (by decide)
    · exact ⟨.given (by simp), .absent (by simp), .absent (by simp), .given (by simp)⟩
  · have hopens : Opens m none "own.toml" [("host", .text "a"), ("user", .integer 3)] :=
      .own rfl (Text.Utf8.decode_encode _) (by cbv)
    refine (hload _ _ _ _ hopens (.whole (by simp))).notText [("host", .text "a")] "user"
      (.integer 3) [] rfl ?_ (by decide) (by simp)
    intro entry he
    obtain rfl := List.mem_singleton.mp he
    exact .setting (by decide)

end Settings

end LineShell
