import LineShell.Proofs.Line.Moves

/-!
# Proofs/Line/Renaming — a scan looks at the class of a character only

    s          ──c──▸    t
    s.map f    ──f c──▸  t.map f

Blank, quote, backslash, ordinary: the rules ask for the class of a character, and whether two
quotes are the same.  So a map that keeps the classes, and keeps or exchanges the quotes, commutes
with every move and every refusal, however many characters it sends to one.  Reading a renamed line
is then renaming what the line is read as (`tokenize_map`).
-/

namespace LineShell.Line

/-! ## Maps that keep the classes -/

/-- The other quote. -/
def Quote.other : Quote → Quote
  | double => single
  | single => double

/-- The map sends blanks to blanks, ordinary characters to ordinary characters and the backslash to
itself, and keeps both quotes or exchanges them. -/
structure KeepsClasses (f : Char → Char) : Prop where
  blank : ∀ c, Text.isBlank c = true → Text.isBlank (f c) = true
  ordinary : ∀ c, isOrdinary c = true → isOrdinary (f c) = true
  backslash : f '\\' = '\\'
  quotes : (∀ q : Quote, f q.char = q.char) ∨ ∀ q : Quote, f q.char = q.other.char

/-- The quote that a quote is sent to. -/
def Quote.map (f : Char → Char) (q : Quote) : Quote := (Quote.ofChar? (f q.char)).getD q

/-- The cause with the character that it names renamed. -/
def Fault.map (f : Char → Char) : Fault → Fault
  | illegalEscape c => illegalEscape (f c)
  | fault => fault

theorem Fault.name_map (f : Char → Char) (fault : Fault) : (fault.map f).name = fault.name := by
  cases fault <;> rfl

namespace KeepsClasses

variable {f : Char → Char} (hf : KeepsClasses f)

include hf

theorem quote (q : Quote) : f q.char = (q.map f).char := by
  rcases hf.quotes with h | h <;> simp only [Quote.map, h, Quote.ofChar?_char, Option.getD_some]

theorem map_injective : Function.Injective (Quote.map f) := by
  intro p q hpq
  rcases hf.quotes with h | h
  · simpa only [Quote.map, h, Quote.ofChar?_char, Option.getD_some] using hpq
  · simp only [Quote.map, h, Quote.ofChar?_char, Option.getD_some] at hpq
    cases p <;> cases q <;> trivial

/-- Escapable characters stay escapable… -/
theorem escapable {c : Char} (h : isEscapable c = true) : isEscapable (f c) = true := by
  obtain ⟨q, rfl⟩ | rfl := isEscapable_eq_true_iff.mp h
  · rw [hf.quote]
    exact isEscapable_quote _
  · rw [hf.backslash]
    exact h

/-- …and no other character becomes so. -/
theorem not_escapable {c : Char} (h : isEscapable c = false) : isEscapable (f c) = false := by
  cases hb : Text.isBlank c with
  | true => exact isEscapable_of_isBlank (hf.blank c hb)
  | false =>
    have hc := hf.ordinary c (by simp [isOrdinary, hb, h])
    simp only [isOrdinary, Bool.and_eq_true, Bool.not_eq_true'] at hc
    exact hc.2

theorem not_blank {c : Char} (h : Text.isBlank c = false) : Text.isBlank (f c) = false := by
  cases he : isEscapable c with
  | true =>
    cases hb : Text.isBlank (f c) with
    | false => rfl
    | true => exact absurd (hf.escapable he) (by simp [isEscapable_of_isBlank hb])
  | false =>
    have hc := hf.ordinary c (by simp [isOrdinary, h, he])
    simp only [isOrdinary, Bool.and_eq_true, Bool.not_eq_true'] at hc
    exact hc.1

end KeepsClasses

/-! ## Renamed states -/

theorem renamed_eq {f : Char → Char} {word image : String}
    (h : word.toList.map f = image.toList) : word.map f = image := by
  rw [← String.toList_inj, String.toList_map, h]

theorem renamed_push (f : Char → Char) (word : String) (c : Char) :
    (word.push c).map f = (word.map f).push (f c) :=
  renamed_eq (by simp)

theorem renamed_empty (f : Char → Char) : String.map f "" = "" := renamed_eq rfl

/-- The place relative to blocks of a renamed line. -/
def Mode.map (f : Char → Char) : Mode → Mode
  | outside => outside
  | inside q => inside (q.map f)
  | closed => closed

namespace Scan

/-- The state with all its words renamed. -/
def map (f : Char → Char) (s : Scan) : Scan where
  finished := s.finished.map (String.map f)
  current := s.current.map (String.map f)
  mode := s.mode.map f
  escaping := s.escaping
  afterBlank := s.afterBlank

variable {f : Char → Char}

theorem tokens_map (s : Scan) : (s.map f).tokens = s.tokens.map (String.map f) := by
  rcases s with ⟨finished, current, mode, escaping, afterBlank⟩
  cases current <;> simp [tokens, map]

theorem map_separate (s : Scan) : s.separate.map f = (s.map f).separate := by
  simp only [separate, tokens_map]
  rfl

theorem current_map_push (s : Scan) (c : Char) :
    ((s.push c).map f).current = ((s.map f).push (f c)).current := by
  rcases s with ⟨finished, current, mode, escaping, afterBlank⟩
  cases current with
  | none =>
    have hword := renamed_push f "" c
    rw [renamed_empty] at hword
    exact congrArg some hword
  | some word => exact congrArg some (renamed_push f word c)

theorem map_push (s : Scan) (c : Char) : (s.push c).map f = (s.map f).push (f c) := by
  have hcurrent := s.current_map_push (f := f) c
  simp only [push, map] at hcurrent ⊢
  rw [hcurrent]

theorem map_pushOrdinary (s : Scan) (c : Char) :
    (s.pushOrdinary c).map f = (s.map f).pushOrdinary (f c) := by
  have hpush := s.map_push (f := f) c
  simp only [pushOrdinary, ← hpush]
  rfl

theorem map_openQuote (s : Scan) (q : Quote) :
    (s.openQuote q).map f = (s.map f).openQuote (q.map f) := by
  rcases s with ⟨finished, current, mode, escaping, afterBlank⟩
  cases current <;> simp [openQuote, map, Mode.map, renamed_empty]

theorem mode_map_eq_closed_iff {s : Scan} : (s.map f).mode = .closed ↔ s.mode = .closed := by
  cases h : s.mode <;> simp [map, Mode.map, h]

theorem mode_map_of_outside {s : Scan} (h : s.mode = .outside) : (s.map f).mode = .outside := by
  simp only [map, Mode.map, h]

theorem mode_map_of_inside {s : Scan} {q : Quote} (h : s.mode = .inside q) :
    (s.map f).mode = .inside (q.map f) := by
  simp only [map, Mode.map, h]

/-! ## Every rule commutes with renaming -/

/-- **What moves a state moves the renamed state**, by the same rule… -/
theorem Move.map (hf : KeepsClasses f) {s t : Scan} {c : Char} (h : Move s c t) :
    Move (s.map f) (f c) (t.map f) := by
  cases h with
  | escaped hm he hc =>
    have hpush : Scan.map f { s.push c with escaping := false } =
        { (s.map f).push (f c) with escaping := false } := by
      rw [← map_push]
      rfl
    rw [hpush]
    exact .escaped (mt mode_map_eq_closed_iff.mp hm) he (hf.escapable hc)
  | separated hm hb =>
    rw [map_separate]
    refine .separated (hm.imp mode_map_eq_closed_iff.mpr fun ⟨hm, he⟩ => ?_) (hf.blank c hb)
    exact ⟨mode_map_of_outside hm, he⟩
  | backslash hm he =>
    rw [hf.backslash]
    exact .backslash (mt mode_map_eq_closed_iff.mp hm) he
  | opened hm he ha =>
    rw [map_openQuote, hf.quote]
    exact .opened (mode_map_of_outside hm) he ha
  | closed hm he =>
    rw [hf.quote]
    exact .closed (mode_map_of_inside hm) he
  | otherQuote hm he hq =>
    rw [map_push, hf.quote]
    exact .otherQuote (mode_map_of_inside hm) he (hf.map_injective.ne hq)
  | ordinary hm he hc =>
    rw [map_pushOrdinary]
    exact .ordinary (mode_map_of_outside hm) he (hf.ordinary c hc)
  | plain hm he hc =>
    rw [map_pushOrdinary]
    exact .plain (mode_map_of_inside hm) he (hf.not_escapable hc)

/-- …and what a state refuses, the renamed state refuses for the same cause. -/
theorem Refusal.map (hf : KeepsClasses f) {s : Scan} {c : Char} {fault : Fault}
    (h : Refusal s c fault) : Refusal (s.map f) (f c) (fault.map f) := by
  cases h with
  | illegalEscape hm he hc =>
    exact .illegalEscape (mt mode_map_eq_closed_iff.mp hm) he (hf.not_escapable hc)
  | missingBlank hm hc => exact .missingBlank (mode_map_eq_closed_iff.mpr hm) (hf.not_blank hc)
  | prematureQuote hm he ha =>
    rw [hf.quote]
    exact .prematureQuote (mode_map_of_outside hm) he ha

/-- **A run over renamed characters is the renamed run.** -/
theorem run_map (hf : KeepsClasses f) : ∀ (cs : List Char) (s : Scan),
    (s.map f).run (cs.map f) = ((s.run cs).map (Scan.map f)).mapError (Fault.map f)
  | [], _ => rfl
  | c :: cs, s => by
    obtain ⟨t, ht⟩ | ⟨fault, hr⟩ := move_or_refusal s c
    · rw [List.map_cons, run_cons_of_move (ht.map hf), run_cons_of_move ht, run_map hf cs t]
    · simp only [List.map_cons, run, hr.step, (hr.map hf).step]
      rfl

/-- A scan that may end still may. -/
theorem AtRest.map {s : Scan} (h : s.AtRest) : (s.map f).AtRest := by
  refine ⟨h.1, fun q hq => ?_⟩
  cases hm : s.mode with
  | inside q => exact h.2 q hm
  | outside =>
    rw [mode_map_of_outside hm] at hq
    cases hq
  | closed =>
    rw [mode_map_eq_closed_iff.mpr hm] at hq
    cases hq

theorem finish_map (s : Scan) :
    (s.map f).finish = (s.finish.map (List.map (String.map f))).mapError (Fault.map f) := by
  cases he : s.escaping with
  | true =>
    have hs : s.finish = .error .hangingEscape := by simp [finish, he]
    have ht : (s.map f).finish = .error .hangingEscape := by simp [finish, map, he]
    rw [hs, ht]
    rfl
  | false =>
    by_cases hq : ∃ q, s.mode = .inside q
    · obtain ⟨q, hq⟩ := hq
      have hs : s.finish = .error .unterminatedQuote := by simp [finish, he, hq]
      have ht : (s.map f).finish = .error .unterminatedQuote := by
        simp [finish, map, Mode.map, he, hq]
      rw [hs, ht]
      rfl
    · have hrest : s.AtRest := ⟨he, fun q hm => hq ⟨q, hm⟩⟩
      rw [finish_eq_ok_iff.mpr ⟨hrest, rfl⟩, finish_eq_ok_iff.mpr ⟨hrest.map, rfl⟩, tokens_map,
        Array.toList_map]
      rfl

end Scan

/-! ## Reading renamed lines -/

/-- Renaming a line renames what it is read as, or the cause for which it is refused. -/
theorem tokenize_map_eq {f : Char → Char} (hf : KeepsClasses f) (line : String) :
    tokenize (line.map f) =
      ((tokenize line).map (List.map (String.map f))).mapError (Fault.map f) := by
  have hrun := Scan.run_map hf line.toList {}
  have hstart : ({} : Scan).map f = {} := by simp [Scan.map, Mode.map]
  rw [hstart] at hrun
  rw [tokenize_eq_bind, tokenize_eq_bind, String.toList_map, hrun]
  cases ({} : Scan).run line.toList with
  | ok s => exact s.finish_map
  | error fault => rfl

/-- **Reading a line depends on the classes of its characters only, and on neither quote more than
on the other.**  A map that keeps the classes renames the words of a line that is read, and a line
that is refused is refused for the same cause, which names the image of the character that it
named. -/
theorem tokenize_map {f : Char → Char} (hf : KeepsClasses f) (line : String) :
    (∀ words, tokenize line = .ok words →
      tokenize (line.map f) = .ok (words.map (String.map f))) ∧
    ∀ fault, tokenize line = .error fault → ∃ image, tokenize (line.map f) = .error image ∧
      image.name = fault.name ∧ ∀ c, fault = .illegalEscape c → image = .illegalEscape (f c) := by
  refine ⟨fun words h => ?_, fun fault h => ⟨fault.map f, ?_, fault.name_map f, ?_⟩⟩
  · rw [tokenize_map_eq hf, h]
    rfl
  · rw [tokenize_map_eq hf, h]
    rfl
  · rintro c rfl
    rfl

/-- Exchanges the quotes and sends all ordinary characters to one. -/
def blur (c : Char) : Char :=
  if c = '"' then '\'' else if c = '\'' then '"' else if isOrdinary c then 'x' else c

theorem keepsClasses_blur : KeepsClasses blur := by
  have hne : ∀ c, Text.isBlank c = true ∨ isOrdinary c = true → c ≠ '"' ∧ c ≠ '\'' := by
    intro c hc
    constructor <;> rintro rfl <;> revert hc <;> decide
  refine ⟨fun c hc => ?_, fun c hc => ?_, by decide, .inr fun q => by cases q <;> decide⟩
  · simp [blur, hne c (.inl hc), isOrdinary, hc]
  · have hx : blur c = 'x' := by simp [blur, hne c (.inr hc), hc]
    rw [hx]
    decide

/-- A word with an escape and the other quote in it, and a refused escape, both blurred. -/
theorem tokenize_map_blur :
    KeepsClasses blur ∧ tokenize "\\'\"it's\"" = .ok ["'it's"] ∧
      tokenize "\\\"'xx\"x'" = .ok ["\"xx\"x"] ∧
      tokenize "\"\" \\n" = .error (.illegalEscape 'n') ∧
      ∃ image, tokenize "'' \\x" = .error image ∧ image = .illegalEscape 'x' := by
  have hread : tokenize "\\'\"it's\"" = .ok ["'it's"] := rfl
  have hrefused : tokenize "\"\" \\n" = .error (.illegalEscape 'n') := rfl
  have hline : "\\'\"it's\"".map blur = "\\\"'xx\"x'" := renamed_eq (by decide)
  have hword : String.map blur "'it's" = "\"xx\"x" := renamed_eq (by decide)
  have hother : "\"\" \\n".map blur = "'' \\x" := renamed_eq (by decide)
  have hfirst := (tokenize_map keepsClasses_blur _).1 _ hread
  obtain ⟨image, himage, -, hnames⟩ := (tokenize_map keepsClasses_blur _).2 _ hrefused
  rw [hline, List.map_singleton, hword] at hfirst
  rw [hother] at himage
  exact ⟨keepsClasses_blur, hread, hfirst, hrefused, image, himage, hnames 'n' rfl⟩

end LineShell.Line
