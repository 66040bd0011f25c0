/-!
# Session/Variables — the variable table

A table holds each name once, in the order in which the names were last added. Setting a present
name keeps its place; a name that was removed and is set again goes last. The two laws that pin the
operations are `get?_set` for the values and `names_set` for the order.
-/

namespace LineShell

/-- The value of a variable. -/
inductive Value where
  | int (n : Int)
  | text (s : String)
  deriving DecidableEq, Repr

namespace Value

/-- The type that a listing shows in front of a variable. -/
def typeName : Value → String
  | int _ => "int"
  | text _ => "str"

/-- The value as text. -/
def render : Value → String
  | int n => toString n
  | text s => s

end Value

/-! ## Entries

The operations on the bare list of entries. -/

/-- The entries with one name bound to a value, in its old place if it has one. -/
def putEntry (name : String) (value : Value) : List (String × Value) → List (String × Value)
  | [] => [(name, value)]
  | entry :: rest =>
      if entry.1 = name then (name, value) :: rest else entry :: putEntry name value rest

theorem keys_putEntry (name : String) (value : Value) : ∀ (es : List (String × Value)),
    (putEntry name value es).map Prod.fst =
      if name ∈ es.map Prod.fst then es.map Prod.fst else es.map Prod.fst ++ [name]
  | [] => by simp [putEntry]
  | entry :: rest => by
      by_cases h : entry.1 = name
      · simp [putEntry, h]
      · have h' : ¬ name = entry.1 := fun e => h e.symm
        simp only [putEntry, h, if_false, List.map_cons, List.mem_cons, h', false_or,
          keys_putEntry name value rest]
        split <;> simp

/-- The value bound to a name in a list of entries. -/
def lookupEntry (name : String) : List (String × Value) → Option Value
  | [] => none
  | entry :: rest => if entry.1 = name then some entry.2 else lookupEntry name rest

theorem lookupEntry_putEntry (name : String) (value : Value) (other : String) :
    ∀ (es : List (String × Value)), lookupEntry other (putEntry name value es) =
      if other = name then some value else lookupEntry other es
  | [] => by
      by_cases h : other = name
      · simp [putEntry, lookupEntry, h]
      · have h' : ¬ name = other := fun e => h e.symm
        simp [putEntry, lookupEntry, h, h']
  | entry :: rest => by
      have ih := lookupEntry_putEntry name value other rest
      by_cases he : entry.1 = name <;> by_cases ho : other = name
      · simp [putEntry, lookupEntry, he, ho]
      · have h' : ¬ name = other := fun e => ho e.symm
        simp [putEntry, lookupEntry, he, ho, h']
      · subst ho
        simp only [putEntry, he, if_false, lookupEntry]
        simpa using ih
      · simp only [putEntry, he, if_false, lookupEntry, ih, ho]

theorem lookupEntry_filter (name other : String) : ∀ (es : List (String × Value)),
    lookupEntry other (es.filter (·.1 ≠ name)) = if other = name then none else lookupEntry other es
  | [] => by simp [lookupEntry]
  | entry :: rest => by
      have ih := lookupEntry_filter name other rest
      by_cases he : entry.1 = name
      · simp only [List.filter_cons, he, ne_eq, not_true, decide_false, Bool.false_eq_true,
          if_false, ih, lookupEntry]
        by_cases ho : other = name
        · simp [ho]
        · have h' : ¬ name = other := fun e => ho e.symm
          simp [ho, h']
      · simp only [List.filter_cons, ne_eq, he, not_false_eq_true, decide_true, if_true,
          lookupEntry, ih]
        by_cases ho : other = name
        · subst ho; simp [he]
        · simp [ho]

/-! ## Tables -/

/-- A table of variables in insertion order. -/
structure Variables where
  /-- The names with their values, oldest first. -/
  entries : List (String × Value) := []
  /-- No name occurs twice. -/
  nodup : (entries.map Prod.fst).Nodup := by decide

namespace Variables

/-- The names in table order. -/
def names (t : Variables) : List String := t.entries.map Prod.fst

/-- The value of a variable, if it is set. -/
def get? (t : Variables) (name : String) : Option Value := lookupEntry name t.entries

/-- Sets a variable; a new name goes last. -/
def set (t : Variables) (name : String) (value : Value) : Variables where
  entries := putEntry name value t.entries
  nodup := by
    rw [keys_putEntry]
    split
    · exact t.nodup
    · next h =>
        rw [List.nodup_append]
        refine ⟨t.nodup, by simp, ?_⟩
        intro a ha b hb
        obtain rfl := List.mem_singleton.mp hb
        exact fun e => h (e ▸ ha)

/-- Removes a variable, if it is set. -/
def erase (t : Variables) (name : String) : Variables where
  entries := t.entries.filter (·.1 ≠ name)
  nodup := t.nodup.sublist (List.filter_sublist.map Prod.fst)

theorem get?_set (t : Variables) (name : String) (value : Value) (other : String) :
    (t.set name value).get? other = if other = name then some value else t.get? other :=
  lookupEntry_putEntry name value other t.entries

theorem names_set (t : Variables) (name : String) (value : Value) :
    (t.set name value).names = if name ∈ t.names then t.names else t.names ++ [name] :=
  keys_putEntry name value t.entries

theorem get?_erase (t : Variables) (name other : String) :
    (t.erase name).get? other = if other = name then none else t.get? other :=
  lookupEntry_filter name other t.entries

theorem names_erase (t : Variables) (name : String) :
    (t.erase name).names = t.names.filter (· ≠ name) := by
  simp [names, erase, List.filter_map, Function.comp_def]

/-- The text of a variable, empty when it is not set. -/
def text (t : Variables) (name : String) : String :=
  ((t.get? name).map Value.render).getD ""

/-- The table of a fresh session: last exit code, shell name, user, host and history setting. -/
def initial (shell user host : String) : Variables where
  entries := [("?", .int 0), ("SHELL", .text shell), ("USER", .text user), ("HOST", .text host),
    ("HISTORY", .text "")]
  nodup := by simp

/-- The lines of a listing, one per variable in table order. -/
def listing (t : Variables) : List String :=
  t.entries.map fun (name, value) => s!"({value.typeName}) {name}={value.render}"

end Variables

end LineShell
