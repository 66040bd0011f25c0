import LineShell.Config.Toml.Document

/-!
# Proofs/Config/Distinct — no table of a document has a key twice

    text ──statement, statement, ⋯──▸ nodes ──▸ table      each with distinct keys at every level

A key that is bound keeps its place or goes last (`put`), and that is the only way in which entries
are added, so tables under construction never have a key twice, nor do the values that a statement
writes.  Every reader hands this on to what it reads (`Reader.Yields`), up to the whole document
(`distinct_of_document?`).
-/

namespace LineShell.Toml

/-! ## Distinct keys -/

mutual

/-- Every table in the value has distinct keys. -/
def Value.Distinct : Value → Prop
  | .text _ | .integer _ | .float _ | .boolean _ | .moment _ => True
  | .array values => AllDistinct values
  | .table entries => Table.Distinct entries

/-- Every table in the values has distinct keys. -/
def AllDistinct : List Value → Prop
  | [] => True
  | v :: rest => v.Distinct ∧ AllDistinct rest

/-- The table and every table in its values have distinct keys. -/
def Table.Distinct : List (String × Value) → Prop
  | [] => True
  | (key, v) :: rest => key ∉ rest.map Prod.fst ∧ v.Distinct ∧ Table.Distinct rest

end

theorem Table.Distinct.nodup : ∀ {t : Table}, Table.Distinct t → (t.map Prod.fst).Nodup
  | [], _ => List.nodup_nil
  | (_, _) :: _, h => List.nodup_cons.mpr ⟨h.1, h.2.2.nodup⟩

theorem Table.Distinct.of_mem {key : String} {v : Value} :
    ∀ {t : Table}, Table.Distinct t → (key, v) ∈ t → v.Distinct
  | (_, _) :: _, h, hmem => by
    rcases List.mem_cons.mp hmem with he | hmem
    · obtain ⟨rfl, rfl⟩ := Prod.mk.inj he
      exact h.2.1
    · exact Table.Distinct.of_mem h.2.2 hmem

theorem allDistinct_append : ∀ {vs ws : List Value}, AllDistinct vs → AllDistinct ws →
    AllDistinct (vs ++ ws)
  | [], _, _, hw => hw
  | _ :: _, _, hv, hw => ⟨hv.1, allDistinct_append hv.2 hw⟩

mutual

/-- Every table that the node stands for has distinct keys. -/
def Node.Distinct : Node → Prop
  | .value v => v.Distinct
  | .table _ entries => Nodes.Distinct entries
  | .tables done last => Nodes.AllDistinct done ∧ Nodes.Distinct last

/-- The table and every table in its nodes have distinct keys. -/
def Nodes.Distinct : List (String × Node) → Prop
  | [] => True
  | (key, node) :: rest => key ∉ rest.map Prod.fst ∧ node.Distinct ∧ Nodes.Distinct rest

/-- Each of the tables, and every table in it, has distinct keys. -/
def Nodes.AllDistinct : List (List (String × Node)) → Prop
  | [] => True
  | entries :: rest => Nodes.Distinct entries ∧ Nodes.AllDistinct rest

end

/-! ## Finished tables -/

theorem keys_toTable : ∀ nodes : Nodes, (toTable nodes).map Prod.fst = nodes.map Prod.fst
  | [] => rfl
  | (key, _) :: rest => congrArg (key :: ·) (keys_toTable rest)

mutual

theorem distinct_toValue : ∀ {node : Node}, node.Distinct → node.toValue.Distinct
  | .value _, h => h
  | .table _ _, h => distinct_toTable h
  | .tables _ _, h => allDistinct_append (allDistinct_toTables h.1) ⟨distinct_toTable h.2, trivial⟩

theorem distinct_toTable : ∀ {nodes : Nodes}, Nodes.Distinct nodes → Table.Distinct (toTable nodes)
  | [], _ => trivial
  | (_, _) :: rest, h =>
    ⟨(keys_toTable rest).symm ▸ h.1, distinct_toValue h.2.1, distinct_toTable h.2.2⟩

theorem allDistinct_toTables : ∀ {tables : List Nodes}, Nodes.AllDistinct tables →
    AllDistinct (toTables tables)
  | [], _ => trivial
  | _ :: _, h => ⟨distinct_toTable h.1, allDistinct_toTables h.2⟩

end

/-! ## Tables under construction -/

namespace Nodes

theorem distinct_nil : Distinct [] := trivial

theorem mem_keys_put {key other : String} {node : Node} : ∀ {nodes : Nodes},
    other ∈ (put key node nodes).map Prod.fst → other = key ∨ other ∈ nodes.map Prod.fst
  | [], h => .inl (List.mem_singleton.mp h)
  | (k, _) :: rest, h => by
    rw [put] at h
    split at h
    · rcases List.mem_cons.mp h with rfl | h
      · exact .inl rfl
      · exact .inr (List.mem_cons_of_mem _ h)
    · rcases List.mem_cons.mp h with rfl | h
      · exact .inr List.mem_cons_self
      · exact (mem_keys_put h).imp_right (List.mem_cons_of_mem _)

/-- **Binding a key keeps the keys distinct.** -/
theorem Distinct.put {key : String} {node : Node} (hnode : node.Distinct) : ∀ {nodes : Nodes},
    Distinct nodes → Distinct (put key node nodes)
  | [], _ => ⟨List.not_mem_nil, hnode, trivial⟩
  | (k, _) :: rest, h => by
    rw [Nodes.put]
    split
    · next he => exact ⟨he ▸ h.1, hnode, h.2.2⟩
    · next he =>
      exact ⟨fun hk => (mem_keys_put hk).elim he h.1, h.2.1, Distinct.put hnode h.2.2⟩

theorem Distinct.of_lookup {key : String} {node : Node} : ∀ {nodes : Nodes},
    Distinct nodes → nodes.lookup key = some node → node.Distinct
  | (k, _) :: rest, h, hlookup => by
    rw [List.lookup_cons] at hlookup
    split at hlookup
    · exact Option.some.inj hlookup ▸ h.2.1
    · exact h.2.2.of_lookup hlookup

theorem allDistinct_concat {last : Nodes} (hlast : Distinct last) : ∀ {done : List Nodes},
    AllDistinct done → AllDistinct (done ++ [last])
  | [], _ => ⟨hlast, trivial⟩
  | _ :: _, h => ⟨h.1, allDistinct_concat hlast h.2⟩

/-- What keeps one table's keys distinct keeps them distinct under a header. -/
theorem Distinct.underHeader {change : Nodes → Option Nodes}
    (hchange : ∀ nodes nodes', Distinct nodes → change nodes = some nodes' → Distinct nodes') :
    ∀ (path : List String) {nodes nodes' : Nodes}, Distinct nodes →
      Nodes.underHeader change path nodes = some nodes' → Distinct nodes'
  | [], nodes, nodes', h, hu => hchange nodes nodes' h hu
  | key :: path, nodes, nodes', h, hu => by
    rw [Nodes.underHeader] at hu
    split at hu
    · obtain ⟨sub, hsub, rfl⟩ := Option.map_eq_some_iff.mp hu
      refine .put ?_ h
      exact underHeader hchange path distinct_nil hsub
    · next origin sub hl =>
      obtain ⟨sub', hsub, rfl⟩ := Option.map_eq_some_iff.mp hu
      refine .put ?_ h
      exact underHeader hchange path (h.of_lookup hl) hsub
    · next done last hl =>
      obtain ⟨last', hlast, rfl⟩ := Option.map_eq_some_iff.mp hu
      have hold := h.of_lookup hl
      refine .put ?_ h
      exact ⟨hold.1, underHeader hchange path hold.2 hlast⟩
    · cases hu

theorem Distinct.openTable {key : String} {nodes nodes' : Nodes} (h : Distinct nodes)
    (ho : Nodes.openTable key nodes = some nodes') : Distinct nodes' := by
  rw [Nodes.openTable] at ho
  split at ho
  · obtain rfl := Option.some.inj ho
    refine .put ?_ h
    exact trivial
  · next sub hl =>
    obtain rfl := Option.some.inj ho
    have hold := h.of_lookup hl
    refine .put ?_ h
    exact hold
  · cases ho

theorem Distinct.openNext {key : String} {nodes nodes' : Nodes} (h : Distinct nodes)
    (ho : Nodes.openNext key nodes = some nodes') : Distinct nodes' := by
  rw [Nodes.openNext] at ho
  split at ho
  · obtain rfl := Option.some.inj ho
    refine .put ?_ h
    exact ⟨trivial, trivial⟩
  · next done last hl =>
    obtain rfl := Option.some.inj ho
    have hold := h.of_lookup hl
    refine .put ?_ h
    exact ⟨allDistinct_concat hold.2 hold.1, trivial⟩
  · cases ho

theorem Distinct.bind {v : Value} (hv : v.Distinct) : ∀ (path : List String) {key : String}
    {nodes nodes' : Nodes}, Distinct nodes → Nodes.bind v path key nodes = some nodes' →
      Distinct nodes'
  | [], key, nodes, nodes', h, hb => by
    rw [Nodes.bind] at hb
    split at hb
    · cases hb
    · obtain rfl := Option.some.inj hb
      refine .put ?_ h
      exact hv
  | first :: path, key, nodes, nodes', h, hb => by
    rw [Nodes.bind] at hb
    split at hb
    · obtain ⟨sub, hsub, rfl⟩ := Option.map_eq_some_iff.mp hb
      refine .put ?_ h
      exact Distinct.bind hv path distinct_nil hsub
    · next origin sub hl =>
      split at hb
      · cases hb
      · obtain ⟨sub', hsub, rfl⟩ := Option.map_eq_some_iff.mp hb
        refine .put ?_ h
        exact Distinct.bind hv path (h.of_lookup hl) hsub
    · cases hb

end Nodes

/-! ## Readers -/

/-- Whatever the reader reads has the property. -/
def Reader.Yields {α : Type} (P : α → Prop) (r : Reader α) : Prop :=
  ∀ {cs rest : List Char} {a : α}, r cs = some (a, rest) → P a

section Nested

variable {value : Reader Value} (hvalue : Reader.Yields Value.Distinct value)

include hvalue

theorem yields_elements : ∀ bound : Nat, Reader.Yields AllDistinct (elements value bound)
  | 0, _, _, _, h => by cases h
  | bound + 1, cs, after, vs, h => by
    simp only [elements, Option.bind_eq_bind, Option.bind_eq_some_iff] at h
    obtain ⟨front, -, h⟩ := h
    split at h
    · obtain ⟨rfl, -⟩ := Prod.mk.inj (Option.some.inj h)
      exact trivial
    · simp only [Option.bind_eq_some_iff] at h
      obtain ⟨⟨v, rest⟩, hv, more, -, h⟩ := h
      split at h
      · obtain ⟨⟨ws, rest'⟩, hws, h⟩ := Option.bind_eq_some_iff.mp h
        obtain ⟨rfl, -⟩ := Prod.mk.inj (Option.some.inj h)
        exact ⟨hvalue hv, yields_elements bound hws⟩
      · obtain ⟨rfl, -⟩ := Prod.mk.inj (Option.some.inj h)
        exact ⟨hvalue hv, trivial⟩
      · cases h

theorem yields_binding {nodes : Nodes} (hnodes : Nodes.Distinct nodes) :
    Reader.Yields Nodes.Distinct (binding value nodes) := by
  intro cs after nodes' h
  simp only [binding, Option.bind_eq_bind, Option.bind_eq_some_iff] at h
  obtain ⟨⟨⟨path, last⟩, rest⟩, -, h⟩ := h
  split at h
  · simp only [Option.bind_eq_some_iff] at h
    obtain ⟨⟨v, rest'⟩, hv, bound, hbound, h⟩ := h
    obtain ⟨rfl, -⟩ := Prod.mk.inj (Option.some.inj h)
    exact hnodes.bind (hvalue hv) path hbound
  · cases h

theorem yields_fields : ∀ (bound : Nat) {nodes : Nodes}, Nodes.Distinct nodes →
    Reader.Yields Nodes.Distinct (fields value bound nodes)
  | 0, _, _, _, _, _, h => by cases h
  | bound + 1, nodes, hnodes, cs, after, nodes', h => by
    simp only [fields, Option.bind_eq_bind, Option.bind_eq_some_iff] at h
    obtain ⟨⟨bound', rest⟩, hbinding, h⟩ := h
    have hdistinct := yields_binding hvalue hnodes hbinding
    split at h
    · exact yields_fields bound hdistinct h
    · obtain ⟨rfl, -⟩ := Prod.mk.inj (Option.some.inj h)
      exact hdistinct
    · cases h

end Nested

theorem distinct_scalar? {run : List Char} {v : Value} (h : scalar? run = some v) :
    v.Distinct := by
  unfold scalar? at h
  repeat' split at h
  all_goals cases h <;> trivial

/-- **A value that is written has distinct keys at every level.** -/
theorem yields_value : ∀ bound : Nat, Reader.Yields Value.Distinct (value bound)
  | 0, _, _, _, h => by cases h
  | bound + 1, cs, after, v, h => by
    unfold value at h
    split at h
    · obtain ⟨⟨text, rest⟩, -, he⟩ := Option.map_eq_some_iff.mp h
      obtain ⟨rfl, -⟩ := Prod.mk.inj he
      exact trivial
    · obtain ⟨⟨text, rest⟩, -, he⟩ := Option.map_eq_some_iff.mp h
      obtain ⟨rfl, -⟩ := Prod.mk.inj he
      exact trivial
    · obtain ⟨⟨vs, rest⟩, hvs, he⟩ := Option.map_eq_some_iff.mp h
      obtain ⟨rfl, -⟩ := Prod.mk.inj he
      exact yields_elements (yields_value bound) _ hvs
    · split at h
      · obtain ⟨rfl, -⟩ := Prod.mk.inj (Option.some.inj h)
        exact trivial
      · obtain ⟨⟨nodes, rest⟩, hnodes, he⟩ := Option.map_eq_some_iff.mp h
        obtain ⟨rfl, -⟩ := Prod.mk.inj he
        exact distinct_toTable (yields_fields (yields_value bound) _ Nodes.distinct_nil hnodes)
    · obtain ⟨v', hv, he⟩ := Option.map_eq_some_iff.mp h
      obtain ⟨rfl, -⟩ := Prod.mk.inj he
      exact distinct_scalar? hv

/-! ## Documents -/

/-- A statement changes a draft under one header. -/
theorem distinct_of_map {change : Nodes → Option Nodes}
    (hchange : ∀ nodes nodes', Nodes.Distinct nodes → change nodes = some nodes' →
      Nodes.Distinct nodes') {d d' : Draft} {path opened : List String}
    (hd : Nodes.Distinct d.nodes)
    (h : (Nodes.underHeader change path d.nodes).map (⟨·, opened⟩ : Nodes → Draft) = some d') :
    Nodes.Distinct d'.nodes := by
  obtain ⟨nodes, hnodes, rfl⟩ := Option.map_eq_some_iff.mp h
  exact hd.underHeader hchange path hnodes

theorem yields_statement {d : Draft} (hd : Nodes.Distinct d.nodes) :
    Reader.Yields (fun d' => Nodes.Distinct d'.nodes) (statement d) := by
  intro cs after d' h
  unfold statement at h
  split at h
  · simp only [Option.bind_eq_bind, Option.bind_eq_some_iff] at h
    obtain ⟨⟨⟨path, last⟩, rest⟩, -, h⟩ := h
    split at h
    · simp only [Option.bind_eq_some_iff] at h
      obtain ⟨opened, hopened, _, -, he⟩ := h
      obtain ⟨rfl, -⟩ := Prod.mk.inj (Option.some.inj he)
      exact distinct_of_map (fun _ _ => Nodes.Distinct.openNext) hd hopened
    · cases h
  · simp only [Option.bind_eq_bind, Option.bind_eq_some_iff] at h
    obtain ⟨⟨⟨path, last⟩, rest⟩, -, h⟩ := h
    split at h
    · simp only [Option.bind_eq_some_iff] at h
      obtain ⟨opened, hopened, _, -, he⟩ := h
      obtain ⟨rfl, -⟩ := Prod.mk.inj (Option.some.inj he)
      exact distinct_of_map (fun _ _ => Nodes.Distinct.openTable) hd hopened
    · cases h
  · simp only [Option.bind_eq_bind, Option.bind_eq_some_iff] at h
    obtain ⟨⟨⟨path, last⟩, rest⟩, -, h⟩ := h
    split at h
    · simp only [Option.bind_eq_some_iff] at h
      obtain ⟨⟨v, _⟩, hv, bound, hbound, _, -, he⟩ := h
      obtain ⟨rfl, -⟩ := Prod.mk.inj (Option.some.inj he)
      exact distinct_of_map (fun _ _ h' => h'.bind (yields_value _ hv) path) hd hbound
    · cases h

theorem distinct_of_statements : ∀ (bound : Nat) {d d' : Draft} {cs : List Char},
    Nodes.Distinct d.nodes → statements bound d cs = some d' → Nodes.Distinct d'.nodes
  | 0, _, _, _, _, h => by cases h
  | bound + 1, d, d', cs, hd, h => by
    rw [statements] at h
    split at h
    · cases h
    · exact Option.some.inj h ▸ hd
    · simp only [Option.bind_eq_bind, Option.bind_eq_some_iff] at h
      obtain ⟨⟨next, rest⟩, hnext, h⟩ := h
      exact distinct_of_statements bound (yields_statement hd hnext) h

/-- **No table of a document has a key twice.** -/
theorem distinct_of_document? {cs : List Char} {document : Table}
    (h : document? cs = some document) : Table.Distinct document := by
  obtain ⟨d, hd, rfl⟩ := Option.map_eq_some_iff.mp h
  exact distinct_toTable (distinct_of_statements _ (d := {}) Nodes.distinct_nil hd)

end LineShell.Toml
