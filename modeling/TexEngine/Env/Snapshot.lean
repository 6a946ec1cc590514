/-
  TexEngine.Env.Snapshot

  Copies of the part of the environment that survives a job.  Boxes, open
  conditionals and fonts' parameters are not part of it.
-/
import TexEngine.Env.Basic

namespace TexEngine

/-- A copy of the global state.  An empty preset name and a missing font leave
    the preset and the font as they are when the copy is restored. -/
structure Snapshot (μ : Type) where
  preset : String := ""
  catcodes : Std.TreeMap Int Catcode := ∅
  tables : CodeTable → Std.TreeMap Int Int64 := fun _ => ∅
  counts : Std.TreeMap String Int64 := ∅
  dimens : Std.TreeMap String Dimen := ∅
  glues : Std.TreeMap String Glue := ∅
  toks : Std.TreeMap String TokenList := ∅
  codes : Std.TreeMap String μ := ∅
  active : Std.TreeMap Int μ := ∅
  font : Option Font := none

namespace Env

variable {μ : Type}

/-- Copies the state; this is only possible outside of all groups. -/
def snapshot (env : Env μ) : Except Fault (Snapshot μ) :=
  if env.atBottom then
    .ok { preset := env.preset.text, catcodes := env.catcodes, tables := env.table,
          counts := env.counts, dimens := env.dimens, glues := env.glues, toks := env.toks,
          codes := env.codes, active := env.active, font := some env.font }
  else .error (.tex { kind := .dumpInGroup })

/-- Adds the entries of `new`, which win, to those of `old`. -/
def merge {κ α : Type} {cmp : κ → κ → Ordering} (old new : Std.TreeMap κ α cmp) :
    Std.TreeMap κ α cmp :=
  new.foldl (fun m k v => m.insert k v) old

/-- Restores a copy; entries that it does not have stay as they are. -/
def restoreSnapshot (env : Env μ) (s : Snapshot μ) : Except Fault (Env μ) :=
  if env.atBottom then
    .ok { env with
      preset := if s.preset.isEmpty then env.preset else Preset.ofName s.preset
      catcodes := merge env.catcodes s.catcodes
      mathcodes := merge env.mathcodes (s.tables .mathcode)
      lccodes := merge env.lccodes (s.tables .lccode)
      uccodes := merge env.uccodes (s.tables .uccode)
      sfcodes := merge env.sfcodes (s.tables .sfcode)
      delcodes := merge env.delcodes (s.tables .delcode)
      counts := merge env.counts s.counts
      dimens := merge env.dimens s.dimens
      glues := merge env.glues s.glues
      toks := merge env.toks s.toks
      codes := merge env.codes s.codes
      active := merge env.active s.active
      font := s.font.getD env.font }
  else .error (.tex { kind := .dumpInGroup })

end Env

end TexEngine
