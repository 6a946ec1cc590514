/-
  TexEngine.Proofs.Format.RoundTrip

  What comes back when a state is stored as a format and loaded into a fresh engine: all
  values and all meanings but fonts.  A primitive that was made undefined is defined again,
  and fonts that were defined by the same name become one font.
-/
import TexEngine.Proofs.Format.Restoring

namespace TexEngine.Setup

open Binding

variable {s : Setup} {m : Machine}

/-! ## Meanings and values -/

/-- Everything but fonts comes back as it was, also in an engine with another preset. -/
theorem Reaches.undump_restores (h : s.Reaches m) (hbottom : m.env.atBottom = true) (s' : Setup)
    (hletters : s'.options.unicodeLetters = s.options.unicodeLetters) :
    ∃ img m' m₂, Eng.dump m = .ok img m' ∧ Eng.undump img s'.machine = .ok () m₂ ∧
      m₂.env.preset = m.env.preset ∧
      (∀ c, m₂.env.catcode c = m.env.catcode c) ∧
      (∀ t c, m₂.env.charCode t c = m.env.charCode t c) ∧
      (∀ name, m₂.env.count name = m.env.count name) ∧
      (∀ name, m₂.env.dimen name = m.env.dimen name) ∧
      (∀ name, m₂.env.glue name = m.env.glue name) ∧
      (∀ name, m₂.env.tokens name = m.env.tokens name) ∧
      (∀ name μ, (∀ f, μ ≠ .font f) → m.env.code? name = some μ → m₂.env.code? name = some μ) ∧
      ∀ c μ, (∀ f, μ ≠ .font f) → m.env.active? c = some μ → m₂.env.active? c = some μ := by
  obtain ⟨img, m', m₂, known, hdump, hundump, hunicode, hrestored⟩ := h.exists_undump hbottom s'
  have hsame : m₂.env.unicodeLetters = m.env.unicodeLetters :=
    hunicode.trans (hletters.trans h.unicodeLetters_eq.symm)
  refine ⟨img, m', m₂, hdump, hundump, hrestored.preset, fun c => ?_, fun t c => ?_,
    fun name => Env.getD_congr (hrestored.counts name) 0,
    fun name => Env.getD_congr (hrestored.dimens name) 0,
    fun name => Env.getD_congr (hrestored.glues name) {},
    fun name => Env.getD_congr (hrestored.toks name) [], fun name μ hfont hμ => ?_,
    fun c μ hfont hμ => ?_⟩
  · rw [Env.catcode, Env.catcode, hsame, hrestored.preset]
    exact Env.getD_congr (hrestored.catcodes c) _
  · rw [Env.charCode, Env.charCode, hsame]
    exact Env.getD_congr (hrestored.table t c) _
  · obtain ⟨μ', hμ', hread⟩ := hrestored.code? name μ hμ
    rwa [← hμ', restored?_of_not_font hfont] at hread
  · obtain ⟨μ', hμ', hread⟩ := hrestored.active? c μ hμ
    rwa [← hμ', restored?_of_not_font hfont] at hread

/-- A macro, a character code, a register, a category and an active character. -/
def definitions : String :=
  "\\def\\a#1\x7bx#1\x7d\\chardef\\c=65 \\count5=7 \\catcode`\\~=13 \\let~=\\a"

/-- The macro that this defines. -/
def definedMacro : MacroDef :=
  { name := "a", pattern := [.param 1], body := [.letter 120, .param 1] }

theorem Reaches.undump_restores_definitions :
    Reaches { options := { preset := .plain } } (afterText definitions) ∧
      (afterText definitions).env.atBottom = true ∧
      ∃ img m' m₂, Eng.dump (afterText definitions) = .ok img m' ∧
        Eng.undump img ({} : Setup).machine = .ok () m₂ ∧ m₂.env.preset = .plain ∧
        m₂.env.catcode 126 = .active ∧ m₂.env.count "5" = 7 ∧
        m₂.env.code? "c" = some (.charDef 65) ∧
        m₂.env.active? 126 = some (.defined definedMacro) := by
  obtain ⟨hbottom, hpreset, hcatcode, hcount, hcode, hactive⟩ :
      (afterText definitions).env.atBottom = true ∧
        (afterText definitions).env.preset = .plain ∧
        (afterText definitions).env.catcode 126 = .active ∧
        (afterText definitions).env.count "5" = 7 ∧
        (afterText definitions).env.code? "c" = some (.charDef 65) ∧
        (afterText definitions).env.active? 126 = some (.defined definedMacro) := by
    decide +kernel
  obtain ⟨img, m', m₂, hdump, hundump, hpreset₂, hcatcode₂, -, hcount₂, -, -, -, hcode₂,
    hactive₂⟩ := (reaches_afterText definitions).undump_restores hbottom {} rfl
  refine ⟨reaches_afterText definitions, hbottom, img, m', m₂, hdump, hundump,
    hpreset₂.trans hpreset, (hcatcode₂ 126).trans hcatcode, (hcount₂ "5").trans hcount,
    hcode₂ "c" _ ?_ hcode, hactive₂ 126 _ ?_ hactive⟩
  · simp
  · simp

/-! ## Undefined names -/

/-- A name that was undefined is again what it is in every fresh engine: a primitive that
    was made undefined is defined again, and all other undefined names stay undefined. -/
theorem Reaches.undump_undefined (h : s.Reaches m) (hbottom : m.env.atBottom = true)
    (s' : Setup) :
    ∃ img m' m₂, Eng.dump m = .ok img m' ∧ Eng.undump img s'.machine = .ok () m₂ ∧
      (∀ name, m.env.code? name = none → m₂.env.code? name = Meaning.primitive? name) ∧
      (∀ name, m₂.env.code? name = none ↔
        m.env.code? name = none ∧ Meaning.primitive? name = none) ∧
      ∀ c, m₂.env.active? c = none ↔ m.env.active? c = none := by
  obtain ⟨img, m', m₂, known, hdump, hundump, -, hrestored⟩ := h.exists_undump hbottom s'
  have hdefined : ∀ {μ? μ₂? : Option Meaning}, (∀ μ, μ? = some μ →
      ∃ μ', restored? known μ = some μ' ∧ μ₂? = some μ') → μ₂? = none → μ? = none := by
    intro μ? μ₂? hread hnone
    cases μ? with
    | none => rfl
    | some μ =>
      obtain ⟨μ', -, hμ'⟩ := hread μ rfl
      rw [hnone] at hμ'
      contradiction
  refine ⟨img, m', m₂, hdump, hundump, hrestored.code?_none, fun name => ⟨fun hnone => ?_, ?_⟩,
    fun c => ⟨hdefined (hrestored.active? c), hrestored.active?_none c⟩⟩
  · have hname := hdefined (hrestored.code? name) hnone
    exact ⟨hname, (hrestored.code?_none name hname).symm.trans hnone⟩
  · rintro ⟨hname, hprimitive⟩
    exact (hrestored.code?_none name hname).trans hprimitive

/-- A primitive that is made undefined. -/
def undefining : String :=
  "\\let\\hbox\\undefined"

theorem undefined_afterText :
    (afterText undefining).env.atBottom = true ∧
      (afterText undefining).env.code? "hbox" = none ∧
      (afterText undefining).env.code? "undefined" = none ∧
      Meaning.primitive? "undefined" = none := by
  decide +kernel

theorem Reaches.undump_undefined_primitive :
    Reaches { options := { preset := .plain } } (afterText undefining) ∧
      (afterText undefining).env.atBottom = true ∧
      ∃ img m' m₂, Eng.dump (afterText undefining) = .ok img m' ∧
        Eng.undump img ({} : Setup).machine = .ok () m₂ ∧
        m₂.env.code? "hbox" = Meaning.primitive? "hbox" ∧
        m₂.env.code? "undefined" = none := by
  obtain ⟨hbottom, hbox, hundefined, hprimitive⟩ := undefined_afterText
  obtain ⟨img, m', m₂, hdump, hundump, hagain, hiff, -⟩ :=
    (reaches_afterText undefining).undump_undefined hbottom {}
  exact ⟨reaches_afterText undefining, hbottom, img, m', m₂, hdump, hundump, hagain "hbox" hbox,
    (hiff "undefined").mpr ⟨hundefined, hprimitive⟩⟩

theorem primitive?_hbox :
    Meaning.primitive? "hbox" = some (.command (.makeBox .horizontal)) := by
  have hmem : Meaning.command (.makeBox .horizontal) ∈ Meaning.primitives := by decide +kernel
  have hname : (Meaning.command (.makeBox .horizontal)).name = "hbox" := rfl
  rw [← hname]
  exact Meaning.primitive?_name_of_mem hmem

/-- Undefined names do not always stay undefined. -/
theorem defined_again :
    Reaches { options := { preset := .plain } } (afterText undefining) ∧
      (afterText undefining).env.atBottom = true ∧
      ∃ img m' m₂, Eng.dump (afterText undefining) = .ok img m' ∧
        Eng.undump img ({} : Setup).machine = .ok () m₂ ∧
        (afterText undefining).env.code? "hbox" = none ∧
        m₂.env.code? "hbox" = some (.command (.makeBox .horizontal)) := by
  obtain ⟨hbottom, hname, -, -⟩ := undefined_afterText
  obtain ⟨img, m', m₂, known, hdump, hundump, -, hrestored⟩ :=
    (reaches_afterText undefining).exists_undump hbottom {}
  exact ⟨reaches_afterText undefining, hbottom, img, m', m₂, hdump, hundump, hname,
    (hrestored.code?_none "hbox" hname).trans primitive?_hbox⟩

/-! ## Fonts -/

/-- Fonts are stored under the names by which they were defined, and those of one name
    become one font, which looks like one of them.  The current font is lost if nothing
    denotes a font of its name. -/
theorem Reaches.undump_fonts (h : s.Reaches m) (hbottom : m.env.atBottom = true) (s' : Setup) :
    ∃ img m' m₂, Eng.dump m = .ok img m' ∧ Eng.undump img s'.machine = .ok () m₂ ∧
      ∃ r : Font → Font, r Font.null = Font.null ∧
        (∀ name f, m.env.code? name = some (.font f) → m₂.env.code? name = some (.font (r f))) ∧
        (∀ c f, m.env.active? c = some (.font f) → m₂.env.active? c = some (.font (r f))) ∧
        (∀ f, m.env.Binds (.font f) → ∃ f₀, m.env.Binds (.font f₀) ∧ f₀.id = f.id ∧
          (f₀ = Font.null ↔ f = Font.null) ∧ f₀.Resembles m.env.fonts m₂.env.fonts (r f)) ∧
        (∀ f g, m.env.Binds (.font f) → m.env.Binds (.font g) →
          (r f = r g ↔ f.id = g.id ∧ (f = Font.null ↔ g = Font.null))) ∧
        (∀ f, (∀ f₀, m.env.Binds (.font f₀) → f₀.id = f.id → f₀ = Font.null) → r f = Font.null) ∧
        m₂.env.font = if m.env.font.id = "" then Font.null else r m.env.font := by
  obtain ⟨img, m', m₂, known, hdump, hundump, -, hrestored⟩ := h.exists_undump hbottom s'
  have hcomplete := (h.wellFormed (Nat.le_refl m.env.fonts.next)).env.fonts
  refine ⟨img, m', m₂, hdump, hundump, standIn known, standIn_null known, fun name f hname => ?_,
    fun c f hc => ?_,
    fun f hf => hrestored.fonts.exists_resembles hcomplete hf (hrestored.getElem?_known hf),
    fun f g hf hg => hrestored.fonts.standIn_eq_iff (hrestored.getElem?_known hf)
      (hrestored.getElem?_known hg),
    fun f hlost => hrestored.fonts.standIn_of_lost hlost, hrestored.font⟩
  · obtain ⟨μ', hμ', hread⟩ := hrestored.code? name _ hname
    rw [hread, (restored?_font hμ').1]
  · obtain ⟨μ', hμ', hread⟩ := hrestored.active? c _ hc
    rw [hread, (restored?_font hμ').1]

/-- Two fonts; the name of the second one, which is selected, gets another meaning. -/
def shadowing : String :=
  "\\font\\g=cmr7 \\font\\f=cmr10 \\f\\let\\f=\\relax"

/-- The font that is still bound after this. -/
def smallFont : Font :=
  { serial := 1, id := "g", name := "cmr7", size := Dimen.points 10, designSize := Dimen.points 10 }

/-- The font that a meaning selects. -/
def selected? : Meaning → Option Font
  | .font f => some f
  | _ => none

theorem shadowed_afterText :
    (afterText shadowing).env.atBottom = true ∧
      (afterText shadowing).env.font.id = "f" ∧ (afterText shadowing).env.font.name = "cmr10" ∧
      (afterText shadowing).env.code? "g" = some (.font smallFont) ∧
      (∀ e ∈ (afterText shadowing).env.codes.toList,
        ∀ f ∈ selected? e.2, f = Font.null ∨ f = smallFont) ∧
      (afterText shadowing).env.active.isEmpty = true := by
  decide +kernel

theorem bound_afterText {f : Font} (hf : (afterText shadowing).env.Binds (.font f)) :
    f = Font.null ∨ f = smallFont := by
  obtain ⟨-, -, -, -, hcodes, hactive⟩ := shadowed_afterText
  rcases hf with ⟨name, hname⟩ | ⟨c, hc⟩
  · exact hcodes (name, .font f) (Std.TreeMap.mem_toList_iff_getElem?_eq_some.mpr hname) f rfl
  · have hnone := Std.TreeMap.getElem?_of_isEmpty (a := c) hactive
    exact absurd (hc.symm.trans hnone) (Option.some_ne_none _)

/-- Nothing that is bound has the name of the current font. -/
theorem eq_null_of_id_afterText {f : Font} (hf : (afterText shadowing).env.Binds (.font f))
    (hid : f.id = (afterText shadowing).env.font.id) : f = Font.null := by
  refine (bound_afterText hf).resolve_right ?_
  rintro rfl
  rw [shadowed_afterText.2.1] at hid
  exact absurd hid (by decide)

theorem Reaches.undump_fonts_shadowed :
    Reaches { options := { preset := .plain } } (afterText shadowing) ∧
      (afterText shadowing).env.atBottom = true ∧
      ∃ img m' m₂ g, Eng.dump (afterText shadowing) = .ok img m' ∧
        Eng.undump img ({} : Setup).machine = .ok () m₂ ∧ m₂.env.code? "g" = some (.font g) ∧
        smallFont.Resembles (afterText shadowing).env.fonts m₂.env.fonts g ∧
        m₂.env.font = Font.null := by
  obtain ⟨hbottom, hid, -, hg, -, -⟩ := shadowed_afterText
  obtain ⟨img, m', m₂, hdump, hundump, r, -, hcode, -, hsame, -, hlost, hfont⟩ :=
    (reaches_afterText shadowing).undump_fonts hbottom {}
  refine ⟨reaches_afterText shadowing, hbottom, img, m', m₂, r smallFont, hdump, hundump,
    hcode "g" smallFont hg, ?_, ?_⟩
  · obtain ⟨f₀, hbound, -, hnull, hresembles⟩ := hsame smallFont (.inl ⟨"g", hg⟩)
    have hne : f₀ ≠ Font.null := fun h₀ => absurd (hnull.mp h₀) (by decide)
    rwa [(bound_afterText hbound).resolve_left hne] at hresembles
  · rw [hfont, if_neg (by rw [hid]; decide)]
    exact hlost _ fun f₀ hbound hname => eq_null_of_id_afterText hbound hname

/-- The current font does not always come back. -/
theorem current_font_lost :
    Reaches { options := { preset := .plain } } (afterText shadowing) ∧
      (afterText shadowing).env.atBottom = true ∧
      ∃ img m' m₂, Eng.dump (afterText shadowing) = .ok img m' ∧
        Eng.undump img ({} : Setup).machine = .ok () m₂ ∧
        (afterText shadowing).env.font.name = "cmr10" ∧ m₂.env.font.name = "nullfont" := by
  obtain ⟨hbottom, hid, hname, -, -, -⟩ := shadowed_afterText
  obtain ⟨img, m', m₂, known, hdump, hundump, -, hrestored⟩ :=
    (reaches_afterText shadowing).exists_undump hbottom {}
  have hfont : m₂.env.font = Font.null := by
    rw [hrestored.font, if_neg (by rw [hid]; decide)]
    exact hrestored.fonts.standIn_of_lost fun f₀ hbound hname =>
      eq_null_of_id_afterText hbound hname
  refine ⟨reaches_afterText shadowing, hbottom, img, m', m₂, hdump, hundump, hname, ?_⟩
  rw [hfont]
  rfl

end TexEngine.Setup
