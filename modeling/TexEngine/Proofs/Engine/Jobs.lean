/-
  TexEngine.Proofs.Engine.Jobs

  Engines at work: an engine is set up at some time, gets texts as input, and runs jobs.
  All states that it gets into are well formed, and what counts as a letter stays as it
  was set up.
-/
import TexEngine.Proofs.Engine.Storing.Execute

namespace TexEngine

open Discipline

/-! ## Setting up -/

/-- A point in time: the minute of the day, and the date. -/
structure Clock where
  minute : Int64 := 0
  day : Int64 := 1
  month : Int64 := 1
  year : Int64 := 1970

/-- The parameters that show the time. -/
def Clock.assignments (c : Clock) : List (Assignment Meaning) :=
  [.count "time" (some c.minute), .count "day" (some c.day), .count "month" (some c.month),
   .count "year" (some c.year)]

/-- What an engine depends on when it is set up. -/
structure Setup where
  options : Options := {}
  clock : Clock := {}
  files : FileTree := {}
  baseDir : String := ""
  traceLevel : Option TraceLevel := none
  dumpRefusal : Option String := none

namespace Setup

/-- A fresh engine, with all primitives and the time. -/
def machine (s : Setup) : Machine :=
  let m := Machine.new s.options
  { m with
    env := s.clock.assignments.foldl (fun env a => env.assign a true) m.env
    input := { baseDir := s.baseDir }
    files := s.files
    traceLevel := s.traceLevel
    dumpRefusal := s.dumpRefusal }

/-- The states that the engine can get into: texts are opened as input, and jobs are run,
    whether they succeed, fail or are stopped. -/
inductive Reaches (s : Setup) : Machine → Prop where
  | start : Reaches s s.machine
  | pushText {m : Machine} (h : Reaches s m) (text name : String) :
      Reaches s ((Eng.pushText text name).after m)
  | run {m : Machine} (h : Reaches s m) (fuel : Nat) : Reaches s ((Eng.run fuel).after m)

variable {s : Setup} {m : Machine} {n : Nat}

theorem env_machine (s : Setup) : s.machine.env =
    { Env.initial s.options.preset s.options.unicodeLetters with
      codes := Meaning.primitiveTable
      counts := (((Env.initialCounts.insert "time" s.clock.minute).insert "day" s.clock.day).insert
        "month" s.clock.month).insert "year" s.clock.year } := rfl

/-- In a fresh engine, only primitives are defined, and integer parameters are set. -/
theorem holds_machine (s : Setup) (n : Nat) :
    s.machine.env.Holds (Assignment.WellFormed n) (·.isParam = false) where
  -- Apart from the codes and the integers, a fresh engine has nothing assigned.
  current a := by
    rw [env_machine]
    cases a with
    | count name v =>
      intro hname
      simp only [Env.presetCounts, List.mem_cons, List.not_mem_nil, or_false] at hname
      rcases hname with rfl | rfl | rfl | rfl | rfl | rfl | rfl | rfl | rfl | rfl <;> rfl
    | toks name v =>
      intro ts hts
      simp [Env.initial] at hts
    | code name v => exact fun μ hμ => Meaning.wellFormed_of_primitive? hμ
    | active c v =>
      intro μ hμ
      simp [Env.initial] at hμ
    | catcode c v =>
      intro k hk
      simp [Env.initial] at hk
    | charCode t c v =>
      intro k hk
      cases t <;> simp [Env.initial, Env.table] at hk
    | font f => exact Font.loadedBefore_null n
    | _ => exact True.intro
  undo := by simp [env_machine, Env.initial]
  afterTokens := by simp [env_machine, Env.initial]
  afterAssignment := by simp [env_machine, Env.initial]

theorem wellFormed_machine (s : Setup) (n : Nat) : s.machine.WellFormed n :=
  ⟨⟨holds_machine s n, FontBook.complete_initial⟩, by simp [machine, Source.ParameterFree]⟩

/-! ## Reachable states -/

/-- An operation that keeps to the discipline keeps states well formed. -/
theorem wellFormed_after {α : Type} {act : Eng α} {Q : α → Prop}
    (hact : Eng.Spec (storing n) True act Q) (hm : m.env.fonts.next ≤ n → m.WellFormed n)
    (hfonts : (act.after m).env.fonts.next ≤ n) : (act.after m).WellFormed n :=
  hact.inv_after True.intro (hm ((storing n).good_of_rel (hact.rel_after m) hfonts)) hfonts

theorem Reaches.wellFormed (h : s.Reaches m) (hfonts : m.env.fonts.next ≤ n) :
    m.WellFormed n := by
  induction h with
  | start => exact wellFormed_machine s n
  -- In both steps the earlier state has no more fonts, since fonts are only added.
  | pushText h text name ih => exact wellFormed_after (Eng.pushText_keeps text name) ih hfonts
  | run h fuel ih => exact wellFormed_after (Eng.run_keeps fuel) ih hfonts

theorem Reaches.unicodeLetters_eq (h : s.Reaches m) :
    m.env.unicodeLetters = s.options.unicodeLetters := by
  induction h with
  | start => rfl
  | pushText h text name ih =>
    exact ((Eng.pushText_keeps (n := 0) (P := True) text name).rel_after _).1.trans ih
  | run h fuel ih =>
    exact ((Eng.run_keeps (n := 0) (P := True) fuel).rel_after _).1.trans ih

/-- The state after a text, in an engine with the plain categories. -/
def afterText (text : String) : Machine :=
  (Eng.run 60).after ((Eng.pushText text "job").after
    ({ options := { preset := .plain } } : Setup).machine)

theorem reaches_afterText (text : String) :
    Reaches { options := { preset := .plain } } (afterText text) :=
  .run (.pushText .start text "job") 60

end Setup

end TexEngine
