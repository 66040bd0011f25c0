import LineShell.Text.Blank

/-!
# Session/Registry — named commands in order of registration

A registry lists commands in the order in which they were registered, each name once. Registering
never replaces, moves or removes a command: the first command of a batch whose name is taken stops
the batch, and the ones before it stay. The body of a command is a parameter, so that a catalogue
of commands without bodies is a registry too.
-/

namespace LineShell

/-- The text can name a command: it is not empty and holds no blank. -/
def isCommandName (s : String) : Bool :=
  !s.toList.isEmpty && s.toList.all fun c => !Text.isBlank c

theorem isCommandName_iff {s : String} :
    isCommandName s = true ↔ s ≠ "" ∧ ∀ c ∈ s.toList, Text.isBlank c = false := by
  have h : s.toList = [] ↔ s = "" := by
    rw [← String.toList_inj]
    rfl
  simp [isCommandName, h]

/-- The cause for which a command is refused. -/
inductive CommandFault where
  /-- The text cannot name a command. -/
  | badName (name : String)
  /-- Another command has the name. -/
  | nameTaken (name : String)
  deriving DecidableEq, Repr

namespace CommandFault

/-- The sentence that tells about the cause. -/
def message : CommandFault → String
  | badName name => s!"Command name '{name}' cannot contain whitespace"
  | nameTaken name => s!"Command '{name}' is already registered"

end CommandFault

/-- What is known about a command without its body. -/
structure CommandInfo where
  name : String
  usage : String
  description : String
  /-- The least number of arguments. -/
  minArgs : Int := 0
  /-- The greatest number of arguments, if there is one. -/
  maxArgs : Option Int := none
  /-- The name can be typed as one unquoted word. -/
  validName : isCommandName name = true := by decide

namespace CommandInfo

/-- What is known about a command, if its name can name one. -/
def make (name usage description : String) (minArgs : Int) (maxArgs : Option Int) :
    Except CommandFault CommandInfo :=
  if h : isCommandName name = true then .ok ⟨name, usage, description, minArgs, maxArgs, h⟩
  else .error (.badName name)

/-- The number of arguments is within bounds. -/
def accepts (info : CommandInfo) (count : Nat) : Bool :=
  info.minArgs ≤ count && info.maxArgs.all fun bound => (count : Int) ≤ bound

/-- The number of arguments is at least the least and at most the greatest, if there is one. -/
def Admits (info : CommandInfo) (count : Nat) : Prop :=
  info.minArgs ≤ count ∧ ∀ bound, info.maxArgs = some bound → (count : Int) ≤ bound

theorem accepts_iff {info : CommandInfo} {count : Nat} :
    info.accepts count = true ↔ info.Admits count := by
  cases h : info.maxArgs <;> simp [accepts, Admits, h]

/-- The complaint about a number of arguments out of bounds. -/
def wrongCount (info : CommandInfo) : String :=
  s!"{info.name}: wrong number of arguments. Usage: {info.usage}"

end CommandInfo

/-- A command: what is known about it, and its body. -/
structure Command (Body : Type) where
  info : CommandInfo
  body : Body

namespace Command

variable {Body : Type}

/-- The name under which the command is registered. -/
def name (c : Command Body) : String := c.info.name

/-- The command without its body. -/
def forget (c : Command Body) : Command Unit := ⟨c.info, ()⟩

end Command

/-- Commands in order of registration, each name once. -/
structure Registry (Body : Type) where
  commands : List (Command Body) := []
  nodup : (commands.map Command.name).Nodup := by simp

namespace Registry

variable {Body : Type}

/-- The registered names in order of registration. -/
def names (r : Registry Body) : List String := r.commands.map Command.name

/-- The name is taken. -/
def contains (r : Registry Body) (name : String) : Bool := r.names.contains name

/-- The command registered under a name. -/
def find? (r : Registry Body) (name : String) : Option (Command Body) :=
  r.commands.find? (·.name == name)

/-- A command stands alone under its name. -/
theorem find?_of_nodup {c : Command Body} : ∀ {cs : List (Command Body)},
    (cs.map Command.name).Nodup → c ∈ cs → cs.find? (·.name == c.name) = some c
  | d :: cs, hnd, hc => by
      rw [List.map_cons, List.nodup_cons] at hnd
      rcases List.mem_cons.mp hc with rfl | hc
      · simp
      · have hne : d.name ≠ c.name := fun e => hnd.1 (e ▸ List.mem_map_of_mem hc)
        rw [List.find?_cons_of_neg (by simpa using hne)]
        exact find?_of_nodup hnd.2 hc

theorem find?_eq_some_iff {r : Registry Body} {name : String} {c : Command Body} :
    r.find? name = some c ↔ c ∈ r.commands ∧ c.name = name := by
  constructor
  · intro h
    exact ⟨List.mem_of_find?_eq_some h, by simpa using List.find?_some h⟩
  · rintro ⟨hc, rfl⟩
    exact find?_of_nodup r.nodup hc

theorem find?_eq_none_iff {r : Registry Body} {name : String} :
    r.find? name = none ↔ name ∉ r.names := by
  simp [find?, names, List.find?_eq_none]

/-- The number of registered commands. -/
def size (r : Registry Body) : Nat := r.commands.length

/-- Adds a command whose name is free. -/
def add (r : Registry Body) (c : Command Body) (free : r.contains c.name = false) :
    Registry Body where
  commands := r.commands ++ [c]
  nodup := by
    have free' : c.name ∉ r.commands.map Command.name := by
      simpa [contains, names] using free
    rw [List.map_append, List.nodup_append]
    refine ⟨r.nodup, by simp, ?_⟩
    intro a ha b hb
    obtain rfl : b = c.name := by simpa using hb
    exact fun e => free' (e ▸ ha)

/-- Registers commands in order, up to the first whose name is taken. -/
def register (r : Registry Body) : List (Command Body) → Except CommandFault Unit × Registry Body
  | [] => (.ok (), r)
  | c :: rest =>
      if h : r.contains c.name = false then (r.add c h).register rest
      else (.error (.nameTaken c.name), r)

theorem commands_add (r : Registry Body) (c : Command Body) (h : r.contains c.name = false) :
    (r.add c h).commands = r.commands ++ [c] := rfl

/-- Earlier commands stay in place, whatever is registered after them. -/
theorem exists_commands_register : ∀ (r : Registry Body) (cs : List (Command Body)),
    ∃ n, (r.register cs).2.commands = r.commands ++ cs.take n
  | r, [] => ⟨0, by simp [register]⟩
  | r, c :: rest => by
      by_cases h : r.contains c.name = false
      · obtain ⟨n, hn⟩ := exists_commands_register (r.add c h) rest
        exact ⟨n + 1, by simp [register, h, hn, commands_add]⟩
      · exact ⟨0, by simp [register, h]⟩

/-- The registry of the known names of a list, in order of first mention. -/
def restrict (r : Registry Body) : List String → Registry Body
  | names => names.foldl (fun found name =>
      match r.find? name with
      | none => found
      | some c => if h : found.contains c.name = false then found.add c h else found) {}

/-- Splits names into the commands they know and the names that are unknown, repeats kept. -/
def subset (r : Registry Body) (names : List String) : Registry Body × List String :=
  (r.restrict names, names.filter (!r.contains ·))

/-- The registry without the bodies. -/
def forget (r : Registry Body) : Registry Unit where
  commands := r.commands.map Command.forget
  nodup := by
    have : (r.commands.map Command.forget).map Command.name = r.commands.map Command.name := by
      simp [Function.comp_def, Command.forget, Command.name]
    rw [this]; exact r.nodup

theorem names_forget (r : Registry Body) : r.forget.names = r.names := by
  simp [names, forget, Function.comp_def, Command.forget, Command.name]

end Registry

end LineShell
