import Mathlib.Data.List.Induction
import LineShell.Session.Variables

/-!
# Proofs/Session/Edits — what edits make of a table of variables

    { }  ──put a, put b, put a, drop b, put c, put b──▸  a, c, b

A table comes from the empty one by edits: variables are put and dropped, and a reset is the edit
that empties the table and the five that put the initial variables.  The last edit that concerns a
name tells its value (`get?_ofEdits_eq_some_iff`), and the names stand in the order in which each of
them was last put into a table that lacked it (`ordered_ofEdits`).  Both laws are proved from the
right: one more edit changes the value of the names that it concerns, and its place is a last
insertion or none.
-/

namespace LineShell

/-- A change of a table of variables. -/
inductive Edit where
  /-- Removes every variable. -/
  | empty
  /-- Sets a variable. -/
  | put (name : String) (value : Value)
  /-- Removes a variable. -/
  | drop (name : String)
  deriving DecidableEq, Repr

namespace Edit

/-- The edit decides what becomes of the name. -/
def Concerns (name : String) : Edit → Prop
  | empty => True
  | put other _ | drop other => other = name

instance (name : String) : ∀ e : Edit, Decidable (e.Concerns name)
  | empty => inferInstanceAs (Decidable True)
  | put other _ => inferInstanceAs (Decidable (other = name))
  | drop other => inferInstanceAs (Decidable (other = name))

/-- The edits of a reset: every variable goes, and the initial ones come in this order. -/
def reset (shell user host : String) : List Edit :=
  [.empty, .put "?" (.int 0), .put "SHELL" (.text shell), .put "USER" (.text user),
    .put "HOST" (.text host), .put "HISTORY" (.text "")]

end Edit

namespace Variables

/-! ## Names and values -/

theorem eq_of_entries : ∀ {t u : Variables}, t.entries = u.entries → t = u
  | ⟨_, _⟩, ⟨_, _⟩, rfl => rfl

theorem lookupEntry_eq_some_of_mem {name : String} {value : Value} :
    ∀ {es : List (String × Value)}, (es.map Prod.fst).Nodup → (name, value) ∈ es →
      lookupEntry name es = some value
  | entry :: rest, hnodup, h => by
    obtain ⟨hfirst, hrest⟩ := List.nodup_cons.mp hnodup
    rcases List.mem_cons.mp h with rfl | h
    · simp [lookupEntry]
    · have hne : entry.1 ≠ name := fun he => hfirst (he ▸ List.mem_map_of_mem h)
      rw [lookupEntry, if_neg hne, lookupEntry_eq_some_of_mem hrest h]

theorem mem_of_lookupEntry_eq_some {name : String} {value : Value} :
    ∀ {es : List (String × Value)}, lookupEntry name es = some value → (name, value) ∈ es
  | (other, v) :: rest, h => by
    rw [lookupEntry] at h
    split at h
    · next he =>
      obtain rfl : other = name := he
      obtain rfl := Option.some.inj h
      exact List.mem_cons_self
    · exact List.mem_cons_of_mem _ (mem_of_lookupEntry_eq_some h)

/-- A table has the entries that the look-up finds. -/
theorem mem_entries_iff {t : Variables} {name : String} {value : Value} :
    (name, value) ∈ t.entries ↔ t.get? name = some value :=
  ⟨lookupEntry_eq_some_of_mem t.nodup, mem_of_lookupEntry_eq_some⟩

/-- The names of a table are those that have a value. -/
theorem mem_names_iff {t : Variables} {name : String} :
    name ∈ t.names ↔ ∃ value, t.get? name = some value := by
  rw [names, List.mem_map]
  constructor
  · rintro ⟨⟨_, value⟩, h, rfl⟩
    exact ⟨value, mem_entries_iff.mp h⟩
  · rintro ⟨value, h⟩
    exact ⟨(name, value), mem_entries_iff.mpr h, rfl⟩

/-- A name that is removed and set again goes last. -/
theorem names_erase_set (t : Variables) (name : String) (value : Value) :
    ((t.erase name).set name value).names = t.names.filter (· ≠ name) ++ [name] := by
  rw [names_set, names_erase, if_neg]
  simp

/-! ## Editing -/

/-- The table after an edit. -/
def edit (t : Variables) : Edit → Variables
  | .empty => {}
  | .put name value => t.set name value
  | .drop name => t.erase name

/-- The table after edits in order. -/
def edited (t : Variables) (edits : List Edit) : Variables := edits.foldl edit t

/-- The table that edits make of the empty one. -/
def ofEdits (edits : List Edit) : Variables := edited {} edits

theorem edited_append (t : Variables) (xs ys : List Edit) :
    t.edited (xs ++ ys) = (t.edited xs).edited ys := List.foldl_append

theorem ofEdits_concat (es : List Edit) (e : Edit) :
    ofEdits (es ++ [e]) = (ofEdits es).edit e := edited_append {} es [e]

/-- A reset makes the initial table of any other. -/
theorem edited_reset (t : Variables) (shell user host : String) :
    t.edited (Edit.reset shell user host) = initial shell user host := eq_of_entries rfl

theorem get?_edit_of_not_concerns (t : Variables) {e : Edit} {name : String}
    (h : ¬ e.Concerns name) : (t.edit e).get? name = t.get? name := by
  cases e with
  | empty => exact absurd trivial h
  | put other value => rw [edit, get?_set, if_neg (Ne.symm h)]
  | drop other => rw [edit, get?_erase, if_neg (Ne.symm h)]

/-! ## Values -/

/-- The last of the edits that concern the name puts the value under it. -/
def LastPut (es : List Edit) (name : String) (value : Value) : Prop :=
  ∃ before after, es = before ++ .put name value :: after ∧ ∀ e ∈ after, ¬ e.Concerns name

theorem not_lastPut_nil (name : String) (value : Value) : ¬ LastPut [] name value := by
  rintro ⟨before, after, h, -⟩
  simp at h

theorem lastPut_concat_of_not_concerns {es : List Edit} {e : Edit} {name : String} {value : Value}
    (h : ¬ e.Concerns name) : LastPut (es ++ [e]) name value ↔ LastPut es name value := by
  constructor
  · rintro ⟨before, after, hes, hafter⟩
    obtain rfl | ⟨after, last, rfl⟩ := List.eq_nil_or_concat after
    · obtain ⟨-, rfl⟩ := List.append_inj' hes rfl |>.imp_right List.singleton_inj.mp
      exact absurd rfl h
    · rw [List.concat_eq_append] at hes hafter
      rw [← List.cons_append, ← List.append_assoc] at hes
      obtain ⟨rfl, -⟩ := List.append_inj' hes rfl
      exact ⟨before, after, rfl, fun e he => hafter e (List.mem_append_left _ he)⟩
  · rintro ⟨before, after, rfl, hafter⟩
    refine ⟨before, after ++ [e], by simp, fun e' he => ?_⟩
    rcases List.mem_append.mp he with he | he
    · exact hafter e' he
    · exact List.mem_singleton.mp he ▸ h

theorem lastPut_concat_of_concerns {es : List Edit} {e : Edit} {name : String} {value : Value}
    (h : e.Concerns name) : LastPut (es ++ [e]) name value ↔ e = .put name value := by
  constructor
  · rintro ⟨before, after, hes, hafter⟩
    obtain rfl | ⟨after, last, rfl⟩ := List.eq_nil_or_concat after
    · exact List.singleton_inj.mp (List.append_inj' hes rfl).2
    · rw [List.concat_eq_append] at hes hafter
      rw [← List.cons_append, ← List.append_assoc] at hes
      obtain rfl := List.singleton_inj.mp (List.append_inj' hes rfl).2
      exact absurd h (hafter e (by simp))
  · rintro rfl
    exact ⟨es, [], rfl, by simp⟩

/-- **A variable has the value that the last edit concerning it has put**, and none if that edit
has not put it or there is no such edit. -/
theorem get?_ofEdits_eq_some_iff {name : String} {value : Value} (es : List Edit) :
    (ofEdits es).get? name = some value ↔ LastPut es name value := by
  induction es using List.reverseRecOn with
  | nil => exact ⟨fun h => (by cases h), fun h => absurd h (not_lastPut_nil name value)⟩
  | append_singleton es e ih =>
    rw [ofEdits_concat]
    by_cases h : e.Concerns name
    · rw [lastPut_concat_of_concerns h]
      cases e with
      | empty => exact ⟨fun h => (by cases h), fun h => (by cases h)⟩
      | put other v =>
        obtain rfl : other = name := h
        simp [edit, get?_set]
      | drop other =>
        obtain rfl : other = name := h
        simp [edit, get?_erase]
    · rw [lastPut_concat_of_not_concerns h, get?_edit_of_not_concerns _ h, ih]

/-! ## Order -/

/-- The edit at a place, counted from zero, puts the name into a table that lacks it. -/
def Inserts (es : List Edit) (name : String) (i : Nat) : Prop :=
  (∃ value, es[i]? = some (.put name value)) ∧ name ∉ (ofEdits (es.take i)).names

/-- The place at which the name was last put into a table that lacked it. -/
def LastInserted (es : List Edit) (name : String) (i : Nat) : Prop :=
  Inserts es name i ∧ ∀ j, Inserts es name j → j ≤ i

theorem inserts_concat_iff {es : List Edit} {e : Edit} {name : String} {i : Nat} :
    Inserts (es ++ [e]) name i ↔ Inserts es name i ∨
      i = es.length ∧ (∃ value, e = .put name value) ∧ name ∉ (ofEdits es).names := by
  rcases Nat.lt_trichotomy i es.length with hi | rfl | hi
  · simp [Inserts, List.getElem?_append_left hi, List.take_append_of_le_length (Nat.le_of_lt hi),
      Nat.ne_of_lt hi]
  · simp [Inserts]
  · have hnone : (es ++ [e])[i]? = none := by
      rw [List.getElem?_eq_none_iff, List.length_append, List.length_singleton]
      omega
    have hnone' : es[i]? = none := List.getElem?_eq_none (Nat.le_of_lt hi)
    simp [Inserts, hnone, hnone', Nat.ne_of_gt hi]

theorem Inserts.lt_length {es : List Edit} {name : String} {i : Nat} (h : Inserts es name i) :
    i < es.length := by
  obtain ⟨⟨value, hput⟩, -⟩ := h
  exact (List.getElem?_eq_some_iff.mp hput).1

/-- An edit that does not insert the name leaves its last insertion… -/
theorem lastInserted_concat_iff {es : List Edit} {e : Edit} {name : String}
    (h : ¬ ((∃ value, e = .put name value) ∧ name ∉ (ofEdits es).names)) (i : Nat) :
    LastInserted (es ++ [e]) name i ↔ LastInserted es name i := by
  simp [LastInserted, inserts_concat_iff, h]

/-- …and one that does is the last. -/
theorem lastInserted_concat_put {es : List Edit} {name : String} {value : Value}
    (h : name ∉ (ofEdits es).names) (i : Nat) :
    LastInserted (es ++ [.put name value]) name i ↔ i = es.length := by
  have hlast : Inserts (es ++ [.put name value]) name es.length :=
    inserts_concat_iff.mpr (.inr ⟨rfl, ⟨value, rfl⟩, h⟩)
  have hle : ∀ j, Inserts (es ++ [.put name value]) name j → j ≤ es.length := fun j hj => by
    have hlt := hj.lt_length
    rw [List.length_append, List.length_singleton] at hlt
    omega
  constructor
  · rintro ⟨hi, hmax⟩
    exact Nat.le_antisymm (hle i hi) (hmax _ hlast)
  · rintro rfl
    exact ⟨hlast, hle⟩

/-- The names of the table have been inserted, and they stand in the order of their last
insertions. -/
structure Ordered (es : List Edit) : Prop where
  inserted : ∀ name ∈ (ofEdits es).names, ∃ i, LastInserted es name i
  increasing : (ofEdits es).names.Pairwise fun a b =>
    ∀ i j, LastInserted es a i → LastInserted es b j → i < j

/-- Names that the edit does not insert keep their order. -/
theorem Ordered.sublist {es : List Edit} {e : Edit} (h : Ordered es)
    (hsub : (ofEdits (es ++ [e])).names.Sublist (ofEdits es).names) : Ordered (es ++ [e]) where
  inserted name hname := by
    have hold := hsub.subset hname
    obtain ⟨i, hi⟩ := h.inserted name hold
    exact ⟨i, (lastInserted_concat_iff (fun hnew => hnew.2 hold) i).mpr hi⟩
  increasing := by
    refine (h.increasing.sublist hsub).imp_of_mem fun {a b} ha hb hab i j hi hj => ?_
    have hkeeps : ∀ name ∈ (ofEdits (es ++ [e])).names, ∀ k,
        LastInserted (es ++ [e]) name k → LastInserted es name k := fun name hname k =>
      (lastInserted_concat_iff (fun hnew => hnew.2 (hsub.subset hname)) k).mp
    exact hab i j (hkeeps a ha i hi) (hkeeps b hb j hj)

/-- A name that is inserted goes last, and so does its place. -/
theorem Ordered.concat_put {es : List Edit} (h : Ordered es) {name : String}
    (hname : name ∉ (ofEdits es).names) (value : Value) : Ordered (es ++ [.put name value]) := by
  have hnames : (ofEdits (es ++ [.put name value])).names = (ofEdits es).names ++ [name] := by
    rw [ofEdits_concat, edit, names_set, if_neg hname]
  have hold : ∀ other ∈ (ofEdits es).names, ∀ i,
      LastInserted (es ++ [.put name value]) other i ↔ LastInserted es other i :=
    fun other hother => lastInserted_concat_iff fun hnew => hnew.2 hother
  constructor
  · intro other hother
    rw [hnames, List.mem_append, List.mem_singleton] at hother
    obtain hother | rfl := hother
    · obtain ⟨i, hi⟩ := h.inserted other hother
      exact ⟨i, (hold other hother i).mpr hi⟩
    · exact ⟨es.length, (lastInserted_concat_put hname _).mpr rfl⟩
  · rw [hnames, List.pairwise_append]
    refine ⟨h.increasing.imp_of_mem fun {a b} ha hb hab i j hi hj => ?_,
      List.pairwise_singleton _ _, fun a ha b hb i j hi hj => ?_⟩
    · exact hab i j ((hold a ha i).mp hi) ((hold b hb j).mp hj)
    · obtain rfl := List.mem_singleton.mp hb
      rw [(lastInserted_concat_put hname j).mp hj]
      exact ((hold a ha i).mp hi).1.lt_length

/-- **The names of a table stand in the order in which each of them was last inserted.** -/
theorem ordered_ofEdits (es : List Edit) : Ordered es := by
  induction es using List.reverseRecOn with
  | nil => exact ⟨fun name hname => (by cases hname), List.Pairwise.nil⟩
  | append_singleton es e ih =>
    cases e with
    | empty =>
      refine ih.sublist ?_
      rw [ofEdits_concat]
      exact List.nil_sublist _
    | drop name =>
      refine ih.sublist ?_
      rw [ofEdits_concat, edit, names_erase]
      exact List.filter_sublist
    | put name value =>
      by_cases hname : name ∈ (ofEdits es).names
      · have hnames : (ofEdits (es ++ [.put name value])).names = (ofEdits es).names := by
          rw [ofEdits_concat, edit, names_set, if_pos hname]
        exact ih.sublist (hnames ▸ List.Sublist.refl _)
      · exact ih.concat_put hname value

end Variables

end LineShell
